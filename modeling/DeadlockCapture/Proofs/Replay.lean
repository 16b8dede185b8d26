import DeadlockCapture.Proofs.Polling
import DeadlockCapture.Proofs.Report.RoundTrip
import DeadlockCapture.Source.Replay

/-!
Polls of a capture that is played back from its file. The source cuts the events off before the
poller leaves some out, so the cap also counts events of equal times. Still a poll gives the first
of the events that it would give without a cap.
-/

namespace DeadlockCapture.Source

open Report (Event)
open Storage (Files WrittenPath)
open Time (Instant)

namespace Replay

variable {files : Files} {path : WrittenPath} {events : List Event}

/-- The file at a path is a capture of these events. -/
def Holds (files : Files) (path : WrittenPath) (events : List Event) : Prop :=
  ∃ content, files.read path = .ok content ∧ eventsOf content = .ok events

/-- Any events can be held by a file: it holds the events that are written to it. -/
theorem holds_of_written
    (hwritten : files.read path = .ok (Json.list (events.map Event.toJson)).compact) :
    Holds files path events := by
  have hdecoded := Event.recovers.list.decode_compact events
  exact ⟨_, hwritten, by rw [eventsOf, hdecoded]⟩

theorem fetch_of_holds (hholds : Holds files path events) (since : Instant) (limit : Nat) :
    fetch files path since limit = .ok (oldestSince since limit events) := by
  obtain ⟨content, hread, hheld⟩ := hholds
  rw [fetch, hread, answer, hheld]
  rfl

end Replay

theorem Poller.poll_ok (p : Poller) (since : Instant) (delay : Nat) (events : List Event) :
    p.poll since delay (.ok events) =
      if p.patience < delay then .error (.timeout p.timeout)
      else .ok (distinctSince since events) := by
  rw [poll, inTime]
  split <;> rfl

/-- A poll of a capture that is not late gives the first events of those that are newer than the
bound, one for each time. It gives some if there are any, and all if the cap on the rows, which is
at least 1, admits every newer event of the capture. -/
theorem poll_of_capture (p : Poller) (n : Nat) {files : Files} {path : WrittenPath}
    {events : List Event} (hholds : Replay.Holds files path events) (since : Instant) :
    ∃ kept,
      (∀ delay, (p.withMaxRows n).poll since delay
          (Replay.fetch files path since (p.withMaxRows n).maxRows) =
        if p.patience < delay then .error (.timeout p.timeout) else .ok kept) ∧
      kept <+: distinctSince since events ∧
      (distinctSince since events ≠ [] → kept ≠ []) ∧
      ((events.countP fun e => decide (since < e.time)) ≤ max n 1 →
        kept = distinctSince since events) := by
  have hcap : 0 < max n 1 := by omega
  refine ⟨distinctSince since (oldestSince since (max n 1) events), fun delay => ?_,
    capped_poll_prefix since _ events, fun hsome hnone => ?_, capped_poll_of_le⟩
  · rw [Replay.fetch_of_holds hholds, Poller.poll_ok]
    rfl
  · exact hsome ((capped_poll_eq_nil hcap).1 hnone)

section Sample

def playedPath : WrittenPath :=
  ⟨"events.json"⟩

def atSecond (s : Int) : Instant :=
  (Instant.of? s 0).getD .epoch

/-- A cap of two rows cuts between the two events of one time. -/
def playedEvents : List Event :=
  [⟨atSecond 9, "late"⟩, ⟨atSecond 0, "old"⟩, ⟨atSecond 5, ""⟩, ⟨atSecond 9, "late again"⟩]

def playedFiles : Files where
  texts := [(["events.json"], (Json.list (playedEvents.map Event.toJson)).compact)]

theorem poll_of_played_capture :
    Replay.Holds playedFiles playedPath playedEvents ∧
      ∃ kept,
        (∀ delay, (Poller.withMaxRows {} 2).poll .epoch delay
            (Replay.fetch playedFiles playedPath .epoch (Poller.withMaxRows {} 2).maxRows) =
          if Poller.patience {} < delay then .error (.timeout (.ofSeconds 10)) else .ok kept) ∧
        kept <+: distinctSince .epoch playedEvents ∧
        (distinctSince .epoch playedEvents ≠ [] → kept ≠ []) ∧
        ((playedEvents.countP fun e => decide (Instant.epoch < e.time)) ≤ max 2 1 →
          kept = distinctSince .epoch playedEvents) := by
  have hholds : Replay.Holds playedFiles playedPath playedEvents := Replay.holds_of_written rfl
  exact ⟨hholds, poll_of_capture {} 2 hholds .epoch⟩

end Sample

end DeadlockCapture.Source
