import DeadlockCapture.Report.Event
import DeadlockCapture.Source.Fault

/-!
Polling a source for the deadlocks after an instant. A source may answer with anything; the poller
keeps what is newer than the instant, oldest first, and one event for each time.
-/

namespace DeadlockCapture.Source

open Report (Event)
open Time (Instant Span)

/-- The events after an instant, oldest first. Events of one time keep their order. -/
def sortedSince (since : Instant) (events : List Event) : List Event :=
  (events.filter fun e => decide (since < e.time)).mergeSort fun a b => decide (a.time ≤ b.time)

/-- Leaves out each event that has the time of the one kept before it. -/
def distinctAfter (last : Instant) : List Event → List Event
  | [] => []
  | e :: r => if e.time = last then distinctAfter last r else e :: distinctAfter e.time r

def firstOfEach : List Event → List Event
  | [] => []
  | e :: r => e :: distinctAfter e.time r

/-- The events after an instant, oldest first, the first for each time. -/
def distinctSince (since : Instant) (events : List Event) : List Event :=
  firstOfEach (sortedSince since events)

/-- The oldest events after an instant, at most `limit` of them. -/
def oldestSince (since : Instant) (limit : Nat) (events : List Event) : List Event :=
  (sortedSince since events).take limit

/-- The instant to poll from: the mark, but no further back than `lookback` nanoseconds before now.
There is none when that bound is no instant. -/
def effectiveSince (mark now : Instant) (lookback : Int) : Option Instant :=
  (now.shift? (-lookback)).map fun bound => if mark ≤ bound then bound else mark

structure Poller where
  maxRows : Nat := 100
  timeout : Span := .ofSeconds 10
  maxRows_pos : 0 < maxRows := by decide

namespace Poller

def withMaxRows (p : Poller) (maxRows : Nat) : Poller :=
  { p with maxRows := max maxRows 1, maxRows_pos := by omega }

/-- The timeout in milliseconds, rounded up. -/
def patience (p : Poller) : Nat :=
  (p.timeout.nanos + 999999) / 1000000

/-- What the poller gets from a source that answers after a number of milliseconds. -/
def inTime (p : Poller) (delay : Nat) (answer : Except Fault (List Event)) :
    Except Fault (List Event) :=
  if p.patience < delay then .error (.timeout p.timeout) else answer

def poll (p : Poller) (since : Instant) (delay : Nat) (answer : Except Fault (List Event)) :
    Except Fault (List Event) :=
  (p.inTime delay answer).map (distinctSince since)

end Poller

end DeadlockCapture.Source
