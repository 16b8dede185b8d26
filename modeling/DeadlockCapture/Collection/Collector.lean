import DeadlockCapture.Collection.Status
import DeadlockCapture.Report.Assembly
import DeadlockCapture.Source.Polling

/-!
A collector and its cycle. A cycle polls the source from the mark, puts the rows that fit into a
payload, hands the payload to each sink in turn, then moves the mark to the time of the last row
and saves it. It waits at each of these; the functions here say what happens between two waits.
-/

namespace DeadlockCapture.Collection

open Report (Assembler Event Payload)
open Sink (Output)
open Source (Poller)
open Time (Instant Span)

structure Settings where
  instanceName : String
  host : String
  tags : List String := []
  enabled : Bool := true
  interval : Span := .ofSeconds 10
  /-- The most bytes that the rows of one payload may take. -/
  maxPayloadBytes : Nat := 19000000
  /-- How many nanoseconds before now a poll may reach back. -/
  lookback : Option Int := none
  poller : Poller := {}
  assembler : Assembler := {}
  sinks : List Output := []

structure Collector where
  settings : Settings
  mark : Mark
  status : Status

inductive Waiting where
  | source (summary : Summary)
  | sinks (summary : Summary) (payload : Payload) (left : List Output)
  | checkpoint (summary : Summary)

inductive Progress where
  | waits (on : Waiting)
  | ended (result : Except Failure Summary)

/-- A collector inside a cycle, and what the cycle has logged. -/
structure Cycle where
  collector : Collector
  progress : Progress
  log : List LogEvent := []

namespace Collector

/-- A collector whose store has given a mark, or else one that starts at an instant. -/
def new (settings : Settings) (saved : Option Instant) (start : Instant) : Collector :=
  let value := saved.getD start
  { settings
    mark := ⟨settings.instanceName, value⟩
    status := { instanceName := settings.instanceName, mark := value } }

def build (settings : Settings) (store : Storage.Store) (files : Storage.Files) (start : Instant) :
    Except Failure Collector :=
  match store.load files settings.instanceName with
  | .error f => .error (.checkpoint f)
  | .ok saved => .ok (new settings saved start)

def skippedSummary (c : Collector) (now : Instant) : Summary :=
  { startedAt := now, since := c.mark.value, mark := c.mark.value, skipped := true }

def pollSince (c : Collector) (now : Instant) : Option Instant :=
  match c.settings.lookback with
  | none => some c.mark.value
  | some lookback => Source.effectiveSince c.mark.value now lookback

def begun (c : Collector) : Collector :=
  { c with status := c.status.begin }

/-- Begins a cycle. There is none when the bound on looking back is no instant. -/
def begin (c : Collector) (now : Instant) : Option Cycle :=
  if c.settings.enabled then
    (c.pollSince now).map fun since =>
      { collector := c.begun
        progress := .waits (.source { startedAt := now, since, mark := c.mark.value }) }
  else
    some { collector := c, progress := .ended (.ok (c.skippedSummary now)), log := [.skippedCycle] }

def failWith (c : Collector) (f : Failure) (log : List LogEvent) : Cycle :=
  { collector := { c with status := c.status.failed f.message c.mark.value }
    progress := .ended (.error f)
    log := log ++ [.failedCycle] }

def succeedWith (c : Collector) (summary : Summary) (log : List LogEvent) : Cycle :=
  { collector := { c with status := c.status.succeeded summary }
    progress := .ended (.ok summary)
    log }

def deliveryLog (summary : Summary) : List LogEvent :=
  if 0 < summary.deferred then [.emittedBatch, .deferredDeadlocks] else [.emittedBatch]

/-- Goes on when every sink has taken the payload: moves the mark and saves it. -/
def delivered (c : Collector) (summary : Summary) (payload : Payload) (log : List LogEvent) :
    Cycle :=
  match payload.rows.getLast? with
  | none => c.succeedWith summary (log ++ deliveryLog summary)
  | some last =>
    let moved := { c with mark := c.mark.advance last.time }
    let summary := { summary with mark := moved.mark.value }
    if c.mark.isBefore last.time then
      { collector := moved, progress := .waits (.checkpoint summary), log }
    else moved.succeedWith summary (log ++ deliveryLog summary)

def offer (c : Collector) (summary : Summary) (payload : Payload) (left : List Output)
    (log : List LogEvent) : Cycle :=
  if left.isEmpty then c.delivered summary payload log
  else { collector := c, progress := .waits (.sinks summary payload left), log }

def payloadOf (c : Collector) (stamp : UInt64) (rows : List Report.Row) : Payload :=
  .ofRows c.settings.host c.settings.interval.seconds stamp c.settings.tags rows

/-- Goes on with the source's answer. `stamp` is the time for the payload. -/
def afterSource (c : Collector) (summary : Summary) (stamp : UInt64)
    (answer : Except Source.Fault (List Event)) (log : List LogEvent) : Cycle :=
  match answer with
  | .error f => c.failWith (.source f) log
  | .ok found =>
    let events := Source.distinctSince summary.since found
    let log := log ++ [.polledSource]
    if events.isEmpty then c.succeedWith summary log
    else
      let assembly := c.settings.assembler.assemble c.settings.maxPayloadBytes events
      let summary := { summary with
        polled := events.length
        emitted := assembly.rows.length
        deferred := assembly.deferred
        parseErrors := assembly.parseErrors
        bytes := assembly.bytes }
      c.offer summary (c.payloadOf stamp assembly.rows) c.settings.sinks (log ++ assembly.log)

/-- Goes on with the answer of the first sink that is left. -/
def afterSink (c : Collector) (summary : Summary) (payload : Payload) (left : List Output)
    (answer : Option Sink.Fault) (log : List LogEvent) : Cycle :=
  match answer with
  | some f => c.failWith (.sink f) log
  | none => c.offer summary payload left.tail log

def afterSave (c : Collector) (summary : Summary) (answer : Option Storage.CheckpointFault)
    (log : List LogEvent) : Cycle :=
  match answer with
  | some f => c.failWith (.checkpoint f) log
  | none => c.succeedWith summary (log ++ deliveryLog summary)

def abandon (c : Collector) : Collector :=
  { c with status := c.status.abandoned c.mark.value }

end Collector

end DeadlockCapture.Collection
