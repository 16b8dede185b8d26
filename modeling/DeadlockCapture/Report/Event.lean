import DeadlockCapture.Json.Basic
import DeadlockCapture.Json.Decoder
import DeadlockCapture.Time.InstantText

/-!
A deadlock as the server has recorded it: when, and the document that describes it.
-/

namespace DeadlockCapture

namespace Time

def Instant.toJson (t : Instant) : Json :=
  .text t.text

def Instant.decoder : Json.Decoder Instant := fun r =>
  match Json.Decoder.text r with
  | .error f => .error f
  | .ok s =>
    match Instant.ofText? s with
    | some t => .ok t
    | none => .error .mismatched

end Time

namespace Report

open Time (Instant)

structure Event where
  time : Instant
  document : String
deriving DecidableEq

namespace Event

def toJson (e : Event) : Json :=
  .record [("timestamp", e.time.toJson), ("xml", .text e.document)]

/-- An event whose fields are still being read. -/
structure Draft where
  time : Option Instant := none
  document : Option String := none

def fields : List (Json.RecordField Draft) :=
  [.required "timestamp" Draft.time (fun d v => { d with time := some v }) Instant.decoder,
   .required "xml" Draft.document (fun d v => { d with document := some v }) Json.Decoder.text]

def Draft.finish (d : Draft) : Option Event := do
  some ⟨← d.time, ← d.document⟩

def decoder : Json.Decoder Event :=
  Json.Decoder.record fields {} Draft.finish

end Event

end Report

end DeadlockCapture
