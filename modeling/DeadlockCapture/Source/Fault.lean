import DeadlockCapture.Time.Span

/-!
Why a source does not answer.
-/

namespace DeadlockCapture.Source

inductive Fault where
  | connection (detail : String)
  | timeout (limit : Time.Span)
  | query (detail : String)
  | authentication (detail : String)
  | read (detail : String)
  | decode (detail : String)
deriving DecidableEq, Repr

def Fault.message : Fault → String
  | .connection detail => "Connection failed: " ++ detail
  | .timeout limit => "Query timed out after " ++ limit.text
  | .query detail => "Query failed: " ++ detail
  | .authentication detail => "Authentication failed: " ++ detail
  | .read detail => "Read error: " ++ detail
  | .decode detail => "Decode error: " ++ detail

def Fault.isConnectivity : Fault → Bool
  | .connection _ | .timeout _ => true
  | .query _ | .authentication _ | .read _ | .decode _ => false

end DeadlockCapture.Source
