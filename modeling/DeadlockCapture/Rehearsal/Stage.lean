import DeadlockCapture.Rehearsal.Background
import DeadlockCapture.Source.Script

/-!
A stage on which a collector is rehearsed: a source that answers as it is told, outputs and a store
that can be looked at, and a clock that moves only when everything waits.
-/

namespace DeadlockCapture.Rehearsal

open Collection (Collector Cycle Failure Settings Surroundings)
open Report (Event Payload)
open Source (Poller Script)
open Time (Instant)

inductive Actor where
  /-- There is none, or nobody can reach it any more. -/
  | gone
  | waiting (c : Collector)
  | working (b : Background)
  /-- Its work in the background has broken off, and nobody gets it back. -/
  | broken (c : Collector)

structure Stage where
  clock : Nat := 0
  now : Instant
  script : Script := {}
  outlets : Sink.Outlets := {}
  store : Storage.Store := .memory .empty
  actor : Actor := .gone

namespace Stage

def shown (s : Stage) : Option Collector :=
  match s.actor with
  | .gone => none
  | .waiting c | .broken c => some c
  | .working b => some b.shown

def emit (o : Sink.Output) (p : Payload) : StateM Stage (Option Sink.Fault) := do
  let s ← get
  match s.outlets.emit p o with
  | .error f => pure (some f)
  | .ok outlets => do
    set { s with outlets }
    pure none

def save (mark : Mark) : StateM Stage (Option Storage.CheckpointFault) := do
  let s ← get
  let saved := s.store.save s.outlets.files mark
  set { s with store := saved.store, outlets := { s.outlets with files := saved.files } }
  pure saved.fault?

def pollTime (s : Stage) (p : Poller) : Nat :=
  min s.script.delay p.patience

def answer (delay : Nat) (p : Poller) (since : Instant) :
    StateM Stage (Except Source.Fault (List Event)) := do
  let s ← get
  pure (p.inTime delay (s.script.answer since p.maxRows))

def ask (p : Poller) (since : Instant) : StateM Stage Unit :=
  modify fun s => { s with script := s.script.remember since p.maxRows }

def fetch (p : Poller) (since : Instant) : StateM Stage (Except Source.Fault (List Event)) := do
  ask p since
  let delay := (← get).script.delay
  modify fun s => { s with clock := s.clock + s.pollTime p }
  answer delay p since

/-- What surrounds a collector on the stage, with a way to fetch events. -/
def surroundings (fetch : Poller → Instant → StateM Stage (Except Source.Fault (List Event))) :
    Surroundings (StateM Stage) :=
  { fetch, stamp := pure 0, emit, save }

/-- Lets the waiting collector run a cycle. The stage is lost when the bound on looking back is no
instant. -/
def cycle (s : Stage) (c : Collector) : Option (Cycle × Stage) :=
  match (c.runCycle (surroundings fetch) s.now).run s with
  | (none, _) => none
  | (some done, s) => some (done, { s with actor := .waiting done.collector })

/-- Puts a collector on the stage, with the mark that the store has for it. -/
def build (s : Stage) (settings : Settings) (start : Instant) : Except Failure Collector × Stage :=
  match Collector.build settings s.store s.outlets.files start with
  | .error f => (.error f, { s with actor := .gone })
  | .ok c => (.ok c, { s with actor := .waiting c })

/-- Lets a collector work in the background. The work breaks off if there is no time between its
cycles. -/
def start (s : Stage) (c : Collector) : Stage :=
  if c.settings.interval.nanos = 0 then { s with actor := .broken c }
  else { s with actor := .working (.start c s.clock) }

/-- Ends a wait for the source: the cycle goes on to its end. -/
def land (s : Stage) (b : Background) (f : Flight) : Stage :=
  let (done, s) := (f.cycle.finish (surroundings (answer f.delay))).run s
  { s with actor := .working { b with collector := done.collector, flight := none } }

/-- Begins a cycle in the background. The work breaks off when the bound on looking back is no
instant. -/
def takeOff (s : Stage) (b : Background) : Stage :=
  let b := { b with tick := b.nextTick s.clock }
  match b.collector.begin s.now with
  | none => { s with actor := .broken b.collector.begun }
  | some cycle =>
    match cycle.progress with
    | .waits (.source summary) =>
      let p := b.collector.settings.poller
      let (_, s) := (ask p summary.since).run s
      let f : Flight := ⟨cycle, s.script.delay, s.clock + s.pollTime p⟩
      if s.pollTime p = 0 then s.land b f
      else { s with actor := .working { b with flight := some f } }
    | _ => { s with actor := .working { b with collector := cycle.collector } }

def happen (s : Stage) (b : Background) (time : Nat) : Stage :=
  let s := { s with clock := time }
  match b.flight with
  | some f => s.land b f
  | none => s.takeOff b

/-- Moves the clock towards a time; `events` bounds what can happen on the way. What happens at the
very end is left for later. -/
def moveTo (time : Nat) : Nat → Stage → Stage
  | 0, s => { s with clock := time }
  | events + 1, s =>
    match s.actor with
    | .working b =>
      if b.next s.clock < time then moveTo time events (s.happen b (b.next s.clock))
      else { s with clock := time }
    | _ => { s with clock := time }

def sleep (s : Stage) (span : Nat) : Stage :=
  match s.actor with
  | .working b => moveTo (s.clock + span) (b.eventBound span) s
  | _ => { s with clock := s.clock + span }

/-- Whether a cycle is under way in the background, if there is work at all. -/
def isCollecting? (s : Stage) : Option Bool :=
  match s.actor with
  | .working b => some (b.shown.status.activity matches .collecting)
  | .broken c => some (c.status.activity matches .collecting)
  | _ => none

/-- Ends the work in the background and takes the collector back, unless the work has broken off. -/
def shutdown (s : Stage) : Stage :=
  match s.actor with
  | .working b => { s with actor := .waiting b.stop }
  | .broken _ => { s with actor := .gone }
  | _ => s

def dismiss (s : Stage) : Stage :=
  { s with actor := .gone }

end Stage

end DeadlockCapture.Rehearsal
