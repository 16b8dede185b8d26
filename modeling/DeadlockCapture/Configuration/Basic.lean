import DeadlockCapture.Collection.Collector
import DeadlockCapture.Source.RingBuffer
import DeadlockCapture.Text.Blank
import DeadlockCapture.Time.SpanText

/-!
What the program is set to, and what settings must be like to run with them. Spans of time are kept
as they are written.
-/

namespace DeadlockCapture

open Sql (RedactionOptions)
open Storage (WrittenPath)
open Time (Span SpanFault)

/-- Where payloads go. Without a place they are shown on the console. -/
structure Destination where
  file : Option WrittenPath := none
  tcp : Option String := none
deriving DecidableEq, Repr

structure Configuration where
  /-- The instance under watch, by which its mark is kept. -/
  instanceName : String := "default"
  host : Option String := none
  enabled : Bool := true
  collectionInterval : String := "10s"
  maxPayloadBytes : Nat := 19000000
  maxRows : Nat := 100
  queryTimeout : String := "10s"
  /-- How far back a poll may reach; a span of nothing stands for no bound. -/
  maxLookback : String := "10m"
  redactXml : Bool := true
  sessionName : String := Source.RingBuffer.defaultSession
  tags : List String := []
  redaction : RedactionOptions := {}
  checkpointPath : Option WrittenPath := none
  output : Destination := {}
deriving DecidableEq, Repr

namespace Configuration

/-- Why the program cannot run with its settings. -/
inductive Fault where
  | unread
  | misfit
  | noInstance
  | badSpan (name : String) (cause : SpanFault)
  | zero (name : String)
  | twoOutputs
deriving DecidableEq, Repr

def Fault.message : Fault → String
  | .unread => "Failed to load configuration"
  | .misfit => "Invalid configuration"
  | .noInstance => "instance must not be empty"
  | .badSpan name _ => "Invalid " ++ name
  | .zero name => name ++ " must be greater than zero"
  | .twoOutputs => "output.file and output.tcp are mutually exclusive"

def Fault.causes : Fault → List String
  | .badSpan _ cause => [cause.message]
  | .unread | .misfit | .noInstance | .zero _ | .twoOutputs => []

/-- The spans of time of a configuration. -/
structure Timing where
  interval : Span
  timeout : Span
  lookback : Option Span
deriving DecidableEq, Repr

def hostName (c : Configuration) : String :=
  c.host.getD c.instanceName

def spanOf (name text : String) : Except Fault Span :=
  match Span.ofText text with
  | .ok d => .ok d
  | .error cause => .error (.badSpan name cause)

def positiveSpan (name text : String) : Except Fault Span :=
  match spanOf name text with
  | .error f => .error f
  | .ok d => if d.nanos = 0 then .error (.zero name) else .ok d

def timing (c : Configuration) : Except Fault Timing := do
  let interval ← positiveSpan "collection_interval" c.collectionInterval
  let timeout ← positiveSpan "query_timeout" c.queryTimeout
  let lookback ← spanOf "max_lookback" c.maxLookback
  return { interval, timeout, lookback := if lookback.nanos = 0 then none else some lookback }

/-- Checks a configuration; one that is sound has spans. -/
def check (c : Configuration) : Except Fault Timing :=
  if (Text.trim c.instanceName.toList).isEmpty then .error .noInstance
  else
    match c.timing with
    | .error f => .error f
    | .ok timing =>
      if c.maxPayloadBytes = 0 then .error (.zero "max_payload_bytes")
      else if c.maxRows = 0 then .error (.zero "max_rows")
      else if c.output.file.isSome ∧ c.output.tcp.isSome then .error .twoOutputs
      else .ok timing

end Configuration

end DeadlockCapture
