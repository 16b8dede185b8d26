import DeadlockCapture.Sink.Output
import DeadlockCapture.Source.Fault
import DeadlockCapture.Storage.Checkpoint

/-!
What is known of a collector's cycles: the summary of one, and the health that all of them leave.
-/

namespace DeadlockCapture.Collection

open Time (Instant)

/-- Why a cycle fails. A document that cannot be read is no reason. -/
inductive Failure where
  | source (f : Source.Fault)
  | sink (f : Sink.Fault)
  | checkpoint (f : Storage.CheckpointFault)
deriving DecidableEq, Repr

def Failure.message : Failure → String
  | .source f => "Source error: " ++ f.message
  | .sink f => "Sink error: " ++ f.message
  | .checkpoint f => "Checkpoint error: " ++ f.message

structure Summary where
  startedAt : Instant
  since : Instant
  polled : Nat := 0
  emitted : Nat := 0
  deferred : Nat := 0
  parseErrors : Nat := 0
  bytes : Nat := 0
  mark : Instant
  /-- The collector is disabled and has done nothing. -/
  skipped : Bool := false
deriving DecidableEq

inductive Activity where
  | idle
  | collecting
deriving DecidableEq, Repr

structure Status where
  instanceName : String
  activity : Activity := .idle
  mark : Instant
  cycles : Nat := 0
  /-- The failed cycles since the last that did not fail. -/
  consecutiveFailures : Nat := 0
  lastSummary : Option Summary := none
  lastError : Option String := none
deriving DecidableEq

namespace Status

def isHealthy (s : Status) : Bool :=
  s.consecutiveFailures == 0

def begin (s : Status) : Status :=
  { s with activity := .collecting }

def succeeded (s : Status) (summary : Summary) : Status :=
  { s with
    activity := .idle
    mark := summary.mark
    cycles := s.cycles + 1
    consecutiveFailures := 0
    lastError := none
    lastSummary := some summary }

def failed (s : Status) (message : String) (mark : Instant) : Status :=
  { s with
    activity := .idle
    mark
    cycles := s.cycles + 1
    consecutiveFailures := s.consecutiveFailures + 1
    lastError := some message }

/-- A cycle is given up half-way. -/
def abandoned (s : Status) (mark : Instant) : Status :=
  { s with activity := .idle, mark }

end Status

end DeadlockCapture.Collection
