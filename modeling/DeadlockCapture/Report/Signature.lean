import DeadlockCapture.Json.Basic
import DeadlockCapture.Json.Decoder
import DeadlockCapture.Report.SessionSet
import DeadlockCapture.Sql.Normalized

/-!
The signature of a session's statement: its normal form and the fingerprint that groups it.
-/

namespace DeadlockCapture.Report

open DeadlockCapture.Json

/-- The statement of a session without its literals. -/
structure Signature where
  session : SessionId
  fingerprint : String
  redacted : String
  commands : List String := []
  tables : List String := []
  /-- The statement could not be divided into tokens. -/
  unreadable : Bool := false
deriving DecidableEq

namespace Signature

/-- The signature of a session whose statement has a given normal form. -/
def ofNormalized (session : SessionId) (n : Sql.Normalized) : Signature :=
  ⟨session, n.fingerprint, n.redacted, n.commands, n.tables, n.unreadable⟩

def toJson (s : Signature) : Json :=
  .record <|
    [("session_id", .whole s.session.toInt), ("normalized_hash", .text s.fingerprint),
      ("redacted_text", .text s.redacted)] ++
    unlessNil "commands" (s.commands.map .text) ++ unlessNil "tables" (s.tables.map .text) ++
    whenSet "opaque" s.unreadable

/-- A signature whose fields are still being read. -/
structure Draft where
  session : Option SessionId := none
  fingerprint : Option String := none
  redacted : Option String := none
  commands : Option (List String) := none
  tables : Option (List String) := none
  unreadable : Option Bool := none

def fields : List (RecordField Draft) :=
  [.required "session_id" Draft.session (fun d v => { d with session := some v }) Decoder.int32,
   .required "normalized_hash" Draft.fingerprint
     (fun d v => { d with fingerprint := some v }) Decoder.text,
   .required "redacted_text" Draft.redacted (fun d v => { d with redacted := some v }) Decoder.text,
   .optional "commands" Draft.commands
     (fun d v => { d with commands := some v }) (Decoder.list Decoder.text),
   .optional "tables" Draft.tables
     (fun d v => { d with tables := some v }) (Decoder.list Decoder.text),
   .optional "opaque" Draft.unreadable (fun d v => { d with unreadable := some v }) Decoder.bool]

def Draft.finish (d : Draft) : Option Signature := do
  some
    { session := ← d.session
      fingerprint := ← d.fingerprint
      redacted := ← d.redacted
      commands := d.commands.getD []
      tables := d.tables.getD []
      unreadable := d.unreadable.getD false }

def decoder : Decoder Signature :=
  Decoder.record fields {} Draft.finish

end Signature

end DeadlockCapture.Report

namespace DeadlockCapture.Sql

/-- The signature of a session that sent a captured text. -/
def RedactionOptions.signature (o : RedactionOptions) (session : Report.SessionId)
    (captured : String) : Report.Signature :=
  .ofNormalized session (o.normalize captured)

end DeadlockCapture.Sql
