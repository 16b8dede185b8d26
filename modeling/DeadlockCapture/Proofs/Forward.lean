import DeadlockCapture.Proofs.Restarts

/-!
A collector only goes forward. Whatever its source answers, however the clock jumps and whatever
fails, the rows that every sink has taken lie one after the other in time, all of them after the
first mark, and the mark stands at the last of them. So no row is handed out twice.
-/

namespace DeadlockCapture.Collection

open Report (Event Payload Row)
open Source (distinctSince lastTime)
open Storage (Marks)
open Time (Instant)

/-- Times go strictly forward from a start, and a mark stands at the last of them. -/
structure Forward (start : Instant) (times : List Instant) (mark : Instant) : Prop where
  ascending : times.Pairwise (· < ·)
  later : ∀ t ∈ times, start < t
  mark : mark = times.getLastD start

namespace Forward

variable {start middle mark : Instant} {times front back : List Instant}

theorem stay (start : Instant) : Forward start [] start :=
  ⟨.nil, fun _ ht => absurd ht List.not_mem_nil, rfl⟩

theorem start_le (h : Forward start times mark) : start ≤ mark := by
  rw [h.mark, List.getLastD_eq_getLast?]
  cases hlast : times.getLast? with
  | none => exact le_refl start
  | some t => exact (h.later t (List.mem_of_getLast? hlast)).le

theorem le_mark (h : Forward start times mark) {t : Instant} (ht : t ∈ times) : t ≤ mark := by
  obtain ⟨init, last, rfl⟩ : ∃ init last, times = init ++ [last] :=
    ⟨_, _, (List.dropLast_append_getLast (List.ne_nil_of_mem ht)).symm⟩
  rw [h.mark, List.getLastD_concat]
  rcases List.mem_append.1 ht with ht | ht
  · exact ((List.pairwise_append.1 h.ascending).2.2 t ht last (List.mem_singleton.2 rfl)).le
  · exact (List.mem_singleton.1 ht).le

/-- What goes forward from the mark goes on with what led up to it. -/
theorem append (h : Forward start front middle) (h' : Forward middle back mark) :
    Forward start (front ++ back) mark := by
  refine ⟨List.pairwise_append.2 ⟨h.ascending, h'.ascending, ?_⟩, ?_, ?_⟩
  · intro s hs t ht
    exact (h.le_mark hs).trans_lt (h'.later t ht)
  · intro t ht
    rcases List.mem_append.1 ht with ht | ht
    · exact h.later t ht
    · exact h.start_le.trans_lt (h'.later t ht)
  · rw [h'.mark, h.mark]
    simp only [List.getLastD_eq_getLast?, List.getLast?_append]
    cases back.getLast? <;> rfl

/-- The rows of the first events of a poll go forward from any mark that the poll does not reach
behind. -/
theorem of_poll (a : Report.Assembler) {since : Instant} {found front back : List Event}
    (hfound : distinctSince since found = front ++ back) (hle : start ≤ since) :
    Forward start ((front.map a.buildRow).map Row.time) (lastTime start front) := by
  have htimes : (front.map a.buildRow).map Row.time = front.map Event.time := by
    rw [List.map_map]
    exact List.map_congr_left fun e _ => Report.time_buildRow a e
  have hascending : Source.Ascending front :=
    (List.pairwise_append.1 (hfound ▸ Source.distinctSince_ascending since found)).1
  rw [htimes]
  refine ⟨List.pairwise_map.2 hascending, ?_, ?_⟩
  · intro t ht
    obtain ⟨e, he, rfl⟩ := List.mem_map.1 ht
    have hmem : e ∈ distinctSince since found := hfound ▸ List.mem_append_left back he
    exact hle.trans_lt (Source.mem_distinctSince.1 hmem).1
  · rw [List.getLastD_eq_getLast?, List.getLast?_map, lastTime]

end Forward

/-- Whatever the source has answered, a turn leaves the settings as they are, what it takes goes
forward from the mark before it to the mark after it, and what it offers lies after the mark before
it. -/
structure Turn.Goes (t : Turn) (after : Collector) : Prop where
  settings : after.settings = t.collector.settings
  instanceName : after.mark.instanceName = t.collector.mark.instanceName
  forward : Forward t.collector.mark.value (t.taken.map Row.time) after.mark.value
  later : ∀ row ∈ t.offered, t.collector.mark.value < row.time

theorem Course.goes {c : Collector} {f : Fate} {store : Marks} {since : Instant} {cycle : Cycle}
    {w : World} (h : Course c f store since cycle w) (hs : c.pollSince f.now = some since) :
    Turn.Goes ⟨c, f, w.offers, cycle.progress⟩ cycle.collector := by
  have hle := Collector.mark_le_pollSince hs
  refine ⟨h.settings_eq, h.mark_forward.1, ?_, ?_⟩
  · show Forward c.mark.value ((c.takenRows f w.offers).map Row.time) cycle.collector.mark.value
    rcases h.effect hs with ⟨hrows, hmark, -, -⟩ | ⟨front, back, hp, -, hrows, hmark⟩
    · rw [hrows, hmark]
      exact .stay c.mark.value
    · obtain ⟨found, hfound⟩ := Collector.found_of_polled hp
      rw [hrows, hmark]
      exact .of_poll c.settings.assembler hfound hle
  · intro row hrow
    obtain ⟨o, ho, hrow⟩ := List.mem_flatMap.1 hrow
    exact hle.trans_lt (time_of_mem_payload hs (h.payload_of_offer ho) hrow).1

theorem Turn.goes_of_runCycle {c : Collector} {f : Fate} {store : Marks} {cycle : Cycle} {w : World}
    (hrun : (c.runCycle f.surroundings f.now).run ⟨store, []⟩ = (some cycle, w)) :
    Turn.Goes ⟨c, f, w.offers, cycle.progress⟩ cycle.collector := by
  rcases Collector.runCycle_cases hrun with ⟨hdisabled, rfl, rfl⟩ | ⟨since, hs, hcourse⟩
  · refine ⟨rfl, rfl, ?_, fun row hrow => absurd hrow List.not_mem_nil⟩
    rw [Turn.taken,
      Collector.takenRows_of_no_payload (Collector.payload?_of_disabled f hdisabled)]
    exact .stay c.mark.value
  · exact hcourse.goes hs

/-- A history that goes forward goes forward with one more cycle. -/
theorem Forward.after {start : Instant} {h : History}
    (hf : Forward start (h.rows.map Row.time) h.collector.mark.value) (f : Fate) :
    Forward start ((h.after f).rows.map Row.time) (h.after f).collector.mark.value := by
  rcases hrun : (h.collector.runCycle f.surroundings f.now).run ⟨h.store, []⟩ with ⟨_ | cycle, w⟩
  · have hafter : h.after f = h := by rw [History.after, hrun]
    rwa [hafter]
  · have hafter : h.after f =
        ⟨cycle.collector, w.store, h.rows ++ h.collector.takenRows f w.offers⟩ := by
      rw [History.after, hrun]
    rw [hafter, List.map_append]
    exact hf.append (Turn.goes_of_runCycle hrun).forward

theorem Forward.afterAll {start : Instant} {h : History}
    (hf : Forward start (h.rows.map Row.time) h.collector.mark.value) (fates : List Fate) :
    Forward start ((h.afterAll fates).rows.map Row.time)
      (h.afterAll fates).collector.mark.value := by
  induction fates generalizing h with
  | nil => exact hf
  | cons f r ih => exact ih (hf.after f)

/-- A cycle in which the source gives something after the bound of the poll and no sink refuses
hands out a row. -/
theorem History.rows_grow {h : History} {f : Fate} {since : Instant} {found : List Event}
    (henabled : h.collector.settings.enabled = true)
    (hs : h.collector.pollSince f.now = some since)
    (hfound : f.source since h.collector.settings.poller.maxRows = .ok found)
    (hnew : ∃ e ∈ found, since < e.time) (haccepts : f.Accepts h.collector) :
    h.rows.length < (h.after f).rows.length := by
  obtain ⟨cycle, w, hrun, hcourse⟩ := h.collector.runCycle_course f h.store henabled hs
  have hp : h.collector.polled f since = .ok (distinctSince since found) := by
    simp [Collector.polled, hfound, Except.map]
  have hsome : distinctSince since found ≠ [] := by
    obtain ⟨e, he, hlater⟩ := hnew
    rw [distinctSince, Ne, Source.firstOfEach_eq_nil]
    exact List.ne_nil_of_mem (Source.mem_sortedSince.2 ⟨he, hlater⟩)
  have hnone : f.refusalFrom 0 h.collector.settings.sinks = none :=
    refusalFrom_eq_none fun i hi => haccepts i (by omega)
  rw [History.after, hrun]
  rcases hcourse.effect hs with ⟨-, -, -, hreason⟩ | ⟨front, back, -, hne, hrows, -⟩
  · exact absurd (hreason hnone _ hp) hsome
  · have := List.length_pos_of_ne_nil hne
    rw [List.length_append, hrows, List.length_map]
    omega

/-- After any number of cycles, whatever the source has answered in each, whatever the clock was and
whatever has failed: the times of the rows that every sink has taken are strictly ascending, all of
them after the first mark, and the mark stands at the last of them. Whenever the source gives
something after the bound of its poll and no sink refuses, there are more of them. -/
theorem runs_never_take_a_row_twice (c : Collector) (store : Marks) (fates : List Fate) :
    let reached := History.afterAll ⟨c, store, []⟩ fates
    let times := reached.rows.map Row.time
    times.Pairwise (· < ·) ∧ (∀ t ∈ times, c.mark.value < t) ∧
      reached.collector.mark.value = times.getLastD c.mark.value ∧
      ∀ (f : Fate) (since : Instant) (found : List Event),
        reached.collector.settings.enabled = true →
        reached.collector.pollSince f.now = some since →
        f.source since reached.collector.settings.poller.maxRows = .ok found →
        (∃ e ∈ found, since < e.time) → f.Accepts reached.collector →
        reached.rows.length < (reached.after f).rows.length := by
  intro reached times
  have hstart : Forward c.mark.value (([] : List Row).map Row.time) c.mark.value :=
    .stay c.mark.value
  have hreached : Forward c.mark.value times reached.collector.mark.value :=
    Forward.afterAll (h := ⟨c, store, []⟩) hstart fates
  exact ⟨hreached.ascending, hreached.later, hreached.mark,
    fun _ _ _ henabled hs hfound hnew haccepts =>
      History.rows_grow henabled hs hfound hnew haccepts⟩

end DeadlockCapture.Collection
