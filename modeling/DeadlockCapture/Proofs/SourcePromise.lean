import DeadlockCapture.Proofs.Replay
import DeadlockCapture.Source.Script
import Mathlib.Data.List.Dedup

/-!
What a source promises of its answers, and how much of it a poll sees to when the source does not.
A poll puts any answer in order and leaves out what is not new. It does not count what is left, so
an answer with too many times is passed on with all of them.
-/

namespace DeadlockCapture.Source

open Report (Event)
open Time (Instant)

/-- What a source promises of its answer: events after an instant, oldest first, and at most as many
as were asked for. -/
structure Promised (since : Instant) (limit : Nat) (answer : List Event) : Prop where
  newer : ∀ e ∈ answer, since < e.time
  ordered : Chronological answer
  few : answer.length ≤ limit

/-- The times after an instant at which there are events, each once. -/
def timesAfter (since : Instant) (events : List Event) : List Instant :=
  ((events.map Event.time).filter fun t => decide (since < t)).dedup

theorem Ascending.chronological {events : List Event} (h : Ascending events) :
    Chronological events :=
  h.imp fun hearlier => hearlier.le

theorem Ascending.nodup_times {events : List Event} (h : Ascending events) :
    (events.map Event.time).Nodup :=
  List.pairwise_map.2 (h.imp fun hearlier => hearlier.ne)

theorem times_distinctSince_perm (since : Instant) (events : List Event) :
    ((distinctSince since events).map Event.time).Perm (timesAfter since events) := by
  have hkept := (distinctSince_ascending since events).nodup_times
  refine (List.perm_ext_iff_of_nodup hkept (List.nodup_dedup _)).2 fun t => ?_
  rw [(keepsFirst_distinctSince since events).times t, List.mem_dedup, List.mem_filter,
    decide_eq_true_eq, and_comm]

/-- A poll keeps as many events as there are times after the bound. -/
theorem length_distinctSince (since : Instant) (events : List Event) :
    (distinctSince since events).length = (timesAfter since events).length := by
  rw [← (times_distinctSince_perm since events).length_eq, List.length_map]

theorem length_timesAfter_le (since : Instant) (events : List Event) :
    (timesAfter since events).length ≤ events.length := by
  calc
    (timesAfter since events).length
    _ ≤ ((events.map Event.time).filter fun t => decide (since < t)).length :=
      (List.dedup_sublist _).length_le
    _ ≤ (events.map Event.time).length := List.length_filter_le _ _
    _ = events.length := List.length_map _

/-- What is kept is what a source promises, up to how much of it there may be. -/
theorem promised_distinctSince_iff {since : Instant} {limit : Nat} {events : List Event} :
    Promised since limit (distinctSince since events) ↔
      (timesAfter since events).length ≤ limit := by
  rw [← length_distinctSince]
  refine ⟨Promised.few, fun hfew => ⟨fun e hkept => ?_, ?_, hfew⟩⟩
  · exact (mem_distinctSince.1 hkept).1
  · exact (distinctSince_ascending since events).chronological

/-- Whatever a source answers in time, a poll gives events after the bound, oldest first. They are
what a source promises exactly if the answer has no more times after the bound than the cap on the
rows admits; so they are if the source itself keeps to the cap. -/
theorem poll_of_any_answer (p : Poller) (n : Nat) (since : Instant) (events : List Event) :
    ∃ kept,
      (∀ delay, (p.withMaxRows n).poll since delay (.ok events) =
        if p.patience < delay then .error (.timeout p.timeout) else .ok kept) ∧
      (∀ e ∈ kept, since < e.time) ∧ Chronological kept ∧
      (Promised since (max n 1) kept ↔ (timesAfter since events).length ≤ max n 1) ∧
      (events.length ≤ max n 1 → Promised since (max n 1) kept) := by
  refine ⟨distinctSince since events, fun delay => ?_, fun e hkept => ?_, ?_,
    promised_distinctSince_iff, fun hfew => ?_⟩
  · rw [Poller.poll_ok]
    rfl
  · exact (mem_distinctSince.1 hkept).1
  · exact (distinctSince_ascending since events).chronological
  · exact promised_distinctSince_iff.2 ((length_timesAfter_le since events).trans hfew)

/-- A source that answers with all that it has, newer than asked for or not. -/
def overflowingScript : Script where
  events := [⟨atSecond 2, "late"⟩, ⟨atSecond 1, "early"⟩]
  sloppy := true

/-- Of two rows neither is left out, though one was asked for. -/
theorem poll_exceeds_cap :
    ∃ kept,
      (Poller.withMaxRows {} 1).poll .epoch 0
          (overflowingScript.answer .epoch (Poller.withMaxRows {} 1).maxRows) = .ok kept ∧
        ¬ Promised .epoch (max 1 1) kept := by
  have hanswered (limit : Nat) :
      overflowingScript.answer .epoch limit = .ok overflowingScript.events := rfl
  refine ⟨distinctSince .epoch overflowingScript.events, ?_, fun hpromised => ?_⟩
  · rw [hanswered, Poller.poll_ok, if_neg (Nat.not_lt_zero _)]
  · have htwo : ¬ (timesAfter .epoch overflowingScript.events).length ≤ max 1 1 := by
      decide +kernel
    exact htwo (promised_distinctSince_iff.1 hpromised)

end DeadlockCapture.Source
