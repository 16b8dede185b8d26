import DeadlockCapture.Text.Quoted
import DeadlockCapture.Xml.Fault

/-!
Why a document does not describe a deadlock. The wording never shows the text of a statement.
-/

namespace DeadlockCapture.Report

inductive DocumentFault where
  | malformed (fault : Xml.Fault)
  | missing (element : String)
  /-- A process has a session id that is no number. -/
  | invalidSession (value : String)
deriving DecidableEq, Repr

def DocumentFault.message (document : String) : DocumentFault → String
  | .malformed fault => "malformed XML: " ++ fault.message document
  | .missing element => "missing element <" ++ element ++ ">"
  | .invalidSession value => "invalid attribute spid on <process>: " ++ Text.Quoted.text value

/-- A document that is turned down, and what is wrong with it. The document is kept so that it can be
logged; the message never shows it. -/
structure Rejection where
  document : String
  fault : DocumentFault
deriving DecidableEq, Repr

def Rejection.message (r : Rejection) : String :=
  r.fault.message r.document

/-- What a document is found to be, or the document with what is wrong with it. -/
def orRejected {α : Type} (document : String) (found : Except DocumentFault α) :
    Except Rejection α :=
  match found with
  | .error f => .error ⟨document, f⟩
  | .ok a => .ok a

end DeadlockCapture.Report
