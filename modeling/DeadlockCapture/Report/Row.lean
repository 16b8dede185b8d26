import DeadlockCapture.Json.Printer
import DeadlockCapture.Report.Event
import DeadlockCapture.Report.Signature

/-!
A row of the output, one for each deadlock. A document that cannot be read is not passed on: its row
carries only the reason, once as a field and once as a marker in place of the document.
-/

namespace DeadlockCapture.Report

open DeadlockCapture.Json
open Time (Instant)

/-- One deadlock, ready to be handed out. -/
structure Row where
  time : Instant
  document : String
  signatures : List Signature
  error : Option String := none
deriving DecidableEq

namespace Row

def errorMark : String :=
  "\x7bERROR: "

def parsed (time : Instant) (document : String) (signatures : List Signature) : Row :=
  { time, document, signatures }

def failed (time : Instant) (reason : String) : Row :=
  { time, document := errorMark ++ reason ++ "\x7d", signatures := [], error := some reason }

def isError (r : Row) : Bool :=
  r.error.isSome

def toJson (r : Row) : Json :=
  .record <|
    [("timestamp", r.time.toJson), ("xml", .text r.document),
      ("query_signatures", .list (r.signatures.map Signature.toJson))] ++
    Json.optional "error" (r.error.map .text)

def size (r : Row) : Nat :=
  r.toJson.compact.utf8ByteSize

/-- A row whose fields are still being read. -/
structure Draft where
  time : Option Instant := none
  document : Option String := none
  signatures : Option (List Signature) := none
  error : Option (Option String) := none

def fields : List (RecordField Draft) :=
  [.required "timestamp" Draft.time (fun d v => { d with time := some v }) Instant.decoder,
   .required "xml" Draft.document (fun d v => { d with document := some v }) Decoder.text,
   .required "query_signatures" Draft.signatures
     (fun d v => { d with signatures := some v }) (Decoder.list Signature.decoder),
   .optional "error" Draft.error
     (fun d v => { d with error := some v }) (Decoder.nullable Decoder.text)]

def Draft.finish (d : Draft) : Option Row := do
  some ⟨← d.time, ← d.document, ← d.signatures, d.error.getD none⟩

def decoder : Decoder Row :=
  Decoder.record fields {} Draft.finish

end Row

end DeadlockCapture.Report
