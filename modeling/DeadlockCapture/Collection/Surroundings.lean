import DeadlockCapture.Collection.Collector

/-!
What a collector works with: a source, outputs and a store, each answering what a cycle asks. A
cycle is run by giving it their answers until it ends.
-/

namespace DeadlockCapture.Collection

open Report (Event Payload)
open Sink (Output)
open Source (Poller)
open Time (Instant)

structure Surroundings (m : Type → Type) where
  /-- The events after an instant, within the poller's bounds. -/
  fetch : Poller → Instant → m (Except Source.Fault (List Event))
  /-- The time for a payload, in milliseconds since 1970. -/
  stamp : m UInt64
  emit : Output → Payload → m (Option Sink.Fault)
  save : Mark → m (Option Storage.CheckpointFault)

namespace Cycle

def resume {m : Type → Type} [Monad m] (s : Surroundings m) (c : Cycle) : m Cycle :=
  match c.progress with
  | .ended _ => pure c
  | .waits (.source summary) => do
    let answer ← s.fetch c.collector.settings.poller summary.since
    let stamp ← s.stamp
    pure (c.collector.afterSource summary stamp answer c.log)
  | .waits (.sinks summary payload left) =>
    match left with
    | [] => pure (c.collector.delivered summary payload c.log)
    | output :: _ => do
      let answer ← s.emit output payload
      pure (c.collector.afterSink summary payload left answer c.log)
  | .waits (.checkpoint summary) => do
    let answer ← s.save c.collector.mark
    pure (c.collector.afterSave summary answer c.log)

def resumeTimes {m : Type → Type} [Monad m] (s : Surroundings m) : Nat → Cycle → m Cycle
  | 0, c => pure c
  | n + 1, c => do resumeTimes s n (← c.resume s)

/-- Runs a cycle to its end. It waits for the source, for each sink and for the store at most. -/
def finish {m : Type → Type} [Monad m] (s : Surroundings m) (c : Cycle) : m Cycle :=
  c.resumeTimes s (c.collector.settings.sinks.length + 2)

end Cycle

/-- Runs one cycle. There is none when the bound on looking back is no instant. -/
def Collector.runCycle {m : Type → Type} [Monad m] (s : Surroundings m) (c : Collector)
    (now : Instant) : m (Option Cycle) :=
  match c.begin now with
  | none => pure none
  | some cycle => do pure (some (← cycle.finish s))

end DeadlockCapture.Collection
