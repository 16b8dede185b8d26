import DeadlockCapture.Collection.Surroundings

/-!
A collector that runs a cycle every interval. The clock counts milliseconds; the times at which
cycles are due are kept in nanoseconds, and a cycle begins in the first millisecond that is not
before its time.
-/

namespace DeadlockCapture.Rehearsal

open Collection (Collector Cycle)

def milliNanos : Nat :=
  1000000

structure Flight where
  cycle : Cycle
  delay : Nat
  due : Nat

/-- A collector at work in the background. -/
structure Background where
  collector : Collector
  tick : Nat
  flight : Option Flight := none

namespace Background

/-- A collector that begins its work. The first cycle is due at once. -/
def start (c : Collector) (clock : Nat) : Background :=
  { collector := c, tick := clock * milliNanos }

/-- When something happens next: a wait is over, or a cycle begins. -/
def next (b : Background) (clock : Nat) : Nat :=
  match b.flight with
  | some f => max clock f.due
  | none => max clock ((b.tick + milliNanos - 1) / milliNanos)

/-- When a cycle is due after one that begins now. A cycle that begins more than five milliseconds
late puts off the ones after it. -/
def nextTick (b : Background) (clock : Nat) : Nat :=
  let begun :=
    if b.tick + 5 * milliNanos < clock * milliNanos then clock * milliNanos else b.tick
  begun + b.collector.settings.interval.nanos

def shown (b : Background) : Collector :=
  match b.flight with
  | some f => f.cycle.collector
  | none => b.collector

/-- Ends the work; a cycle under way is given up. -/
def stop (b : Background) : Collector :=
  match b.flight with
  | some f => f.cycle.collector.abandon
  | none => b.collector

/-- How many times something can happen in a span of milliseconds, at most. -/
def eventBound (b : Background) (span : Nat) : Nat :=
  2 * (span * milliNanos / b.collector.settings.interval.nanos + 3)

end Background

end DeadlockCapture.Rehearsal
