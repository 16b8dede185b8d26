/-!
What the program writes to its log. Only the events are kept here, not their details.
-/

namespace DeadlockCapture

inductive LogEvent where
  | unreadableStatement
  | rejectedDocument
  | oversizedDeadlock
  | fullPayload
  | assembledBatch
  | polledSource
  | emittedBatch
  | deferredDeadlocks
  | failedCycle
  | skippedCycle
deriving DecidableEq, Repr

inductive LogLevel where
  | debug
  | info
  | warn
  | error
deriving DecidableEq, Repr

def LogLevel.name : LogLevel → String
  | .debug => "DEBUG"
  | .info => "INFO"
  | .warn => "WARN"
  | .error => "ERROR"

namespace LogEvent

def level : LogEvent → LogLevel
  | .unreadableStatement | .assembledBatch | .polledSource | .skippedCycle => .debug
  | .emittedBatch => .info
  | .rejectedDocument | .oversizedDeadlock | .fullPayload | .deferredDeadlocks => .warn
  | .failedCycle => .error

def message : LogEvent → String
  | .unreadableStatement => "SQL text not tokenizable, hashing as opaque"
  | .rejectedDocument => "Failed to parse deadlock graph"
  | .oversizedDeadlock => "Single deadlock exceeds payload limit, emitting alone"
  | .fullPayload => "Payload size limit reached, deferring remaining deadlocks"
  | .assembledBatch => "Assembled deadlock batch"
  | .polledSource => "Polled deadlock source"
  | .emittedBatch => "Emitted deadlock batch"
  | .deferredDeadlocks => "Deadlocks deferred to next cycle"
  | .failedCycle => "Deadlock collection cycle failed"
  | .skippedCycle => "Collector disabled, skipping cycle"

def line (e : LogEvent) : String :=
  e.level.name ++ " " ++ e.message

end LogEvent

end DeadlockCapture
