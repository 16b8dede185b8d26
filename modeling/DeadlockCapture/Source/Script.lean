import DeadlockCapture.Source.Polling

/-!
A source that answers as it is told, for rehearsals: with given events or a given fault, after a
given delay. It remembers what it was asked.
-/

namespace DeadlockCapture.Source

open Report (Event)
open Time (Instant)

/-- A source that answers as it is told. -/
structure Script where
  events : List Event := []
  failure : Option Fault := none
  delay : Nat := 0
  /-- Answer with all events as they stand, whatever is asked for. -/
  sloppy : Bool := false
  /-- The instants and limits that were asked for, the latest first. -/
  asked : List (Instant × Nat) := []

namespace Script

def description : String :=
  "scripted"

def remember (s : Script) (since : Instant) (limit : Nat) : Script :=
  { s with asked := (since, limit) :: s.asked }

/-- The instants and limits that were asked for, in order. -/
def calls (s : Script) : List (Instant × Nat) :=
  s.asked.reverse

/-- The answer, once the delay is over. -/
def answer (s : Script) (since : Instant) (limit : Nat) : Except Fault (List Event) :=
  match s.failure with
  | some f => .error f
  | none => .ok (if s.sloppy then s.events else oldestSince since limit s.events)

end Script

end DeadlockCapture.Source
