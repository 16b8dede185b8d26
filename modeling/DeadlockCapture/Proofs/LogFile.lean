import DeadlockCapture.Proofs.Json.OneLine
import DeadlockCapture.Proofs.Report.RoundTrip
import DeadlockCapture.Proofs.Storage.Places
import DeadlockCapture.Sink.Output
import Mathlib.Data.List.Forall2

/-!
A file as a log of payloads. Each payload becomes one line at the end of the file, whatever its
texts hold, so that the lines of the file are the payloads in the order in which they were emitted.
-/

namespace DeadlockCapture.Sink.Outlets

open Json (decode)
open Report (Payload)
open Storage (Place WrittenPath)

/-! ### Lines -/

/-- The compact text of a payload, without the line end behind it. -/
def record (p : Payload) : List Char :=
  Json.compactChars p.toJson

variable {w w' : Outlets} {path : WrittenPath} {place : Place}

end DeadlockCapture.Sink.Outlets
