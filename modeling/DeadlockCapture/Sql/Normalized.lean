import DeadlockCapture.Digest
import DeadlockCapture.Sql.Metadata
import DeadlockCapture.Sql.Redaction

/-!
A statement in normal form. Statements that differ in their literals only have one normal form, and
its fingerprint groups them. A statement that cannot be divided into tokens is shown as one
placeholder and grouped by its raw text.
-/

namespace DeadlockCapture.Sql

structure Normalized where
  redacted : String
  fingerprint : String
  commands : List String
  tables : List String
  /-- The statement could not be divided into tokens. -/
  unreadable : Bool
deriving DecidableEq, Repr

def Normalized.empty : Normalized :=
  ⟨"", Digest.fingerprint "", [], [], false⟩

/-- The normal form of a statement that cannot be divided into tokens. -/
def Normalized.concealed (statement : List Char) : Normalized :=
  ⟨"?", Digest.fingerprint (String.ofList statement), [], [], true⟩

def Normalized.ofPieces (o : RedactionOptions) (pieces : List Token) : Normalized :=
  let redacted := String.ofList (render pieces)
  { redacted
    fingerprint := Digest.fingerprint redacted
    commands := if o.extractMetadata then distinct (verbsOf pieces) else []
    tables := if o.extractMetadata then distinct (tablesOf pieces) else []
    unreadable := false }

def statementOf (captured : String) : List Char :=
  Text.trim captured.toList

def RedactionOptions.normalize (o : RedactionOptions) (captured : String) : Normalized :=
  match tokens (statementOf captured) with
  | .error _ => .concealed (statementOf captured)
  | .ok ts => .ofPieces o (o.pieces ts)

def unclosed? (captured : String) : Option Unclosed :=
  match tokens (statementOf captured) with
  | .error e => some e
  | .ok _ => none

end DeadlockCapture.Sql
