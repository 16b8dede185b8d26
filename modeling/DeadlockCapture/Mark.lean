import DeadlockCapture.Report.Event

/-!
The high-water mark of a collector: the time of the newest event it has handed out. It only moves
forward.
-/

namespace DeadlockCapture

open Time (Instant)

/-- How far the collector of an instance has come. -/
structure Mark where
  instanceName : String
  value : Instant
deriving DecidableEq

namespace Mark

/-- Moves the mark forward; it stays when the time is not later. -/
def advance (m : Mark) (time : Instant) : Mark :=
  if m.value < time then { m with value := time } else m

def isBefore (m : Mark) (time : Instant) : Bool :=
  decide (m.value < time)

def toJson (m : Mark) : Json :=
  .record [("instance", .text m.instanceName), ("value", m.value.toJson)]

/-- A mark whose fields are still being read. -/
structure Draft where
  instanceName : Option String := none
  value : Option Instant := none

def fields : List (Json.RecordField Draft) :=
  [.required "instance" Draft.instanceName
     (fun d v => { d with instanceName := some v }) Json.Decoder.text,
   .required "value" Draft.value (fun d v => { d with value := some v }) Instant.decoder]

def Draft.finish (d : Draft) : Option Mark := do
  some ⟨← d.instanceName, ← d.value⟩

def decoder : Json.Decoder Mark :=
  Json.Decoder.record fields {} Draft.finish

end Mark

end DeadlockCapture
