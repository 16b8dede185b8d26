import DeadlockCapture.Source.Polling
import Mathlib.Data.List.Sort
import Mathlib.Order.MinMax

/-!
Laws of polling. What a poll keeps of a capture is determined by its members: the first event for
each time after the bound, in the order of the times, and no other list is like that. So a poll from
the time of a kept event gives what was kept after it, and a cap on the rows cuts off an end.
-/

namespace DeadlockCapture.Source

open Report (Event)
open Time (Instant)

theorem instant_lt_iff {s t : Instant} : s < t ↔ s.rank < t.rank := Iff.rfl

theorem instant_le_iff {s t : Instant} : s ≤ t ↔ s.rank ≤ t.rank := Iff.rfl

instance : LinearOrder Instant where
  le_refl _ := Int.le_refl _
  le_trans _ _ _ h h' := Int.le_trans h h'
  lt_iff_le_not_ge _ _ := Int.lt_iff_le_and_not_ge
  le_antisymm _ _ h h' := Instant.rank_inj.1 (Int.le_antisymm h h')
  le_total _ _ := Int.le_total _ _
  toDecidableLE := inferInstance

/-- Events in the order of their times; equal times may meet. -/
def Chronological (events : List Event) : Prop :=
  events.Pairwise fun a b => a.time ≤ b.time

def Ascending (events : List Event) : Prop :=
  events.Pairwise fun a b => a.time < b.time

def firstAt (t : Instant) (events : List Event) : Option Event :=
  events.find? fun e => decide (e.time = t)

theorem firstAt_eq_head (t : Instant) (events : List Event) :
    firstAt t events = (events.filter fun e => decide (e.time = t)).head? := by
  rw [firstAt, List.head?_filter]

section Sorting

theorem le_of_eventOrder (a b c : Event) (hab : decide (a.time ≤ b.time) = true)
    (hbc : decide (b.time ≤ c.time) = true) : decide (a.time ≤ c.time) = true := by
  simp only [decide_eq_true_eq, instant_le_iff] at *
  omega

theorem total_eventOrder (a b : Event) :
    (decide (a.time ≤ b.time) || decide (b.time ≤ a.time)) = true := by
  simp only [Bool.or_eq_true, decide_eq_true_eq, instant_le_iff]
  omega

theorem sortedSince_chronological (since : Instant) (events : List Event) :
    Chronological (sortedSince since events) := by
  have h := List.pairwise_mergeSort le_of_eventOrder total_eventOrder
    (events.filter fun e => decide (since < e.time))
  exact h.imp fun hab => by simpa using hab

theorem mem_sortedSince {since : Instant} {events : List Event} {e : Event} :
    e ∈ sortedSince since events ↔ e ∈ events ∧ since < e.time := by
  simp [sortedSince]

/-- The sort is stable: the events at one time keep their order. -/
theorem filter_sortedSince {since t : Instant} (h : since < t) (events : List Event) :
    ((sortedSince since events).filter fun e => decide (e.time = t)) =
      events.filter fun e => decide (e.time = t) := by
  have hf : (events.filter fun e => decide (e.time = t)) =
      (events.filter fun e => decide (since < e.time)).filter fun e => decide (e.time = t) := by
    rw [List.filter_filter]
    apply List.filter_congr
    intro e _
    by_cases he : e.time = t <;> simp [he, h]
  have hsub : (events.filter fun e => decide (e.time = t)).Sublist
      (events.filter fun e => decide (since < e.time)) := by
    rw [hf]
    exact List.filter_sublist
  have hle : (events.filter fun e => decide (e.time = t)).Pairwise
      fun a b => decide (a.time ≤ b.time) = true := by
    rw [List.pairwise_filter]
    apply List.pairwise_of_forall
    intro a b ha hb
    simp only [decide_eq_true_eq] at ha hb
    simp [ha, hb]
  have hsort := List.sublist_mergeSort le_of_eventOrder total_eventOrder hle hsub
  have hkept := hsort.filter fun e => decide (e.time = t)
  rw [List.filter_filter] at hkept
  simp only [Bool.and_self] at hkept
  have hperm := (List.mergeSort_perm (events.filter fun e => decide (since < e.time))
    fun a b => decide (a.time ≤ b.time)).filter fun e => decide (e.time = t)
  refine (hkept.eq_of_length ?_).symm
  rw [hperm.length_eq, ← hf]

theorem firstAt_sortedSince {since t : Instant} (h : since < t) (events : List Event) :
    firstAt t (sortedSince since events) = firstAt t events := by
  rw [firstAt_eq_head, filter_sortedSince h, ← firstAt_eq_head]

/-- Events that are in order and after the bound come back as they are. -/
theorem sortedSince_of_chronological {since : Instant} {events : List Event}
    (ho : Chronological events) (hs : ∀ e ∈ events, since < e.time) :
    sortedSince since events = events := by
  rw [sortedSince, List.filter_eq_self.2 fun e he => by simpa using hs e he]
  exact List.mergeSort_of_pairwise (ho.imp fun hab => by simpa using hab)

end Sorting

section Distinct

/-- What is kept after an event at `last`: the first event at each later time. -/
theorem mem_distinctAfter {last : Instant} {events : List Event} (ho : Chronological events)
    (hl : ∀ e ∈ events, last ≤ e.time) {e : Event} :
    e ∈ distinctAfter last events ↔ e.time ≠ last ∧ firstAt e.time events = some e := by
  induction events generalizing last with
  | nil => simp [distinctAfter, firstAt]
  | cons y r ih =>
      obtain ⟨hy, hr⟩ := List.pairwise_cons.1 ho
      by_cases hlast : y.time = last
      · have hrest := ih hr fun x hx => hl x (List.mem_cons_of_mem y hx)
        simp only [distinctAfter, if_pos hlast, hrest]
        apply and_congr_right
        intro hne
        have : y.time ≠ e.time := fun h => hne (h.symm.trans hlast)
        simp [firstAt, this]
      · have hrest := ih hr hy
        simp only [distinctAfter, if_neg hlast, List.mem_cons, hrest]
        constructor
        · rintro (rfl | ⟨hne, hfirst⟩)
          · exact ⟨hlast, by simp [firstAt]⟩
          · have hmem : e ∈ r := List.mem_of_find?_eq_some hfirst
            refine ⟨?_, by simpa [firstAt, Ne.symm hne] using hfirst⟩
            rintro rfl
            have h1 := hl y List.mem_cons_self
            have h2 := hy e hmem
            simp only [instant_le_iff] at h1 h2
            exact hlast (Instant.rank_inj.1 (by omega))
        · rintro ⟨-, hfirst⟩
          by_cases hye : y.time = e.time
          · simp only [firstAt, List.find?_cons, hye, decide_true] at hfirst
            exact .inl (Option.some.inj hfirst).symm
          · exact .inr ⟨fun h => hye h.symm, by simpa [firstAt, hye] using hfirst⟩

theorem distinctAfter_ascending {last : Instant} {events : List Event} (ho : Chronological events)
    (hl : ∀ e ∈ events, last ≤ e.time) :
    Ascending (distinctAfter last events) := by
  induction events generalizing last with
  | nil => exact .nil
  | cons y r ih =>
      obtain ⟨hy, hr⟩ := List.pairwise_cons.1 ho
      by_cases hlast : y.time = last
      · simp only [distinctAfter, if_pos hlast]
        exact ih hr fun x hx => hl x (List.mem_cons_of_mem y hx)
      · simp only [distinctAfter, if_neg hlast]
        refine List.pairwise_cons.2 ⟨fun e he => ?_, ih hr hy⟩
        obtain ⟨hne, hfirst⟩ := (mem_distinctAfter hr hy).1 he
        have hle := hy e (List.mem_of_find?_eq_some hfirst)
        have hrank : e.time.rank ≠ y.time.rank := fun h => hne (Instant.rank_inj.1 h)
        simp only [instant_le_iff] at hle
        simp only [instant_lt_iff]
        omega

theorem mem_firstOfEach {events : List Event} (ho : Chronological events) {e : Event} :
    e ∈ firstOfEach events ↔ firstAt e.time events = some e := by
  cases events with
  | nil => simp [firstOfEach, firstAt]
  | cons y r =>
      obtain ⟨hy, hr⟩ := List.pairwise_cons.1 ho
      simp only [firstOfEach, List.mem_cons, mem_distinctAfter hr hy, firstAt, List.find?_cons]
      by_cases hye : y.time = e.time
      · simp [hye, eq_comm]
      · have hne : e ≠ y := fun h => hye (h ▸ rfl)
        simp [hye, hne, Ne.symm hye]

theorem firstOfEach_ascending {events : List Event} (ho : Chronological events) :
    Ascending (firstOfEach events) := by
  cases events with
  | nil => exact .nil
  | cons y r =>
      obtain ⟨hy, hr⟩ := List.pairwise_cons.1 ho
      refine List.pairwise_cons.2 ⟨fun e he => ?_, distinctAfter_ascending hr hy⟩
      obtain ⟨hne, hfirst⟩ := (mem_distinctAfter hr hy).1 he
      have hle := hy e (List.mem_of_find?_eq_some hfirst)
      have hrank : e.time.rank ≠ y.time.rank := fun h => hne (Instant.rank_inj.1 h)
      simp only [instant_le_iff] at hle
      simp only [instant_lt_iff]
      omega

theorem distinctSince_ascending (since : Instant) (events : List Event) :
    Ascending (distinctSince since events) :=
  firstOfEach_ascending (sortedSince_chronological since events)

/-- The members of what is kept: the first event at each time after the bound. -/
theorem mem_distinctSince {since : Instant} {events : List Event} {e : Event} :
    e ∈ distinctSince since events ↔ since < e.time ∧ firstAt e.time events = some e := by
  rw [distinctSince, mem_firstOfEach (sortedSince_chronological since events)]
  constructor
  · intro h
    have hlt := (mem_sortedSince.1 (List.mem_of_find?_eq_some h)).2
    exact ⟨hlt, firstAt_sortedSince hlt events ▸ h⟩
  · rintro ⟨hlt, h⟩
    rw [firstAt_sortedSince hlt]
    exact h

/-- Lists without two events at one time are equal when their members are. -/
theorem Ascending.eq_of_mem_iff {l m : List Event} (hl : Ascending l) (hm : Ascending m)
    (h : ∀ e, e ∈ l ↔ e ∈ m) : l = m := by
  have : Std.Irrefl fun a b : Event => a.time < b.time := ⟨fun a h => by
    simp only [instant_lt_iff] at h
    omega⟩
  have : Std.Antisymm fun a b : Event => a.time < b.time := ⟨fun a b h h' => by
    simp only [instant_lt_iff] at h h'
    omega⟩
  exact List.Pairwise.eq_of_mem_iff hl hm h

theorem distinctSince_of_le {since bound : Instant} (h : since ≤ bound) (events : List Event) :
    distinctSince bound events =
      (distinctSince since events).filter fun e => decide (bound < e.time) := by
  refine (distinctSince_ascending bound events).eq_of_mem_iff
    ((distinctSince_ascending since events).filter _) fun e => ?_
  simp only [List.mem_filter, mem_distinctSince, decide_eq_true_eq]
  simp only [instant_le_iff, instant_lt_iff] at *
  constructor
  · rintro ⟨hlt, hfirst⟩
    exact ⟨⟨by omega, hfirst⟩, hlt⟩
  · rintro ⟨⟨-, hfirst⟩, hlt⟩
    exact ⟨hlt, hfirst⟩

end Distinct

section Characterisation

/-- What is kept of some events: for each time after the bound the first event at it, in the order
of the times. -/
structure KeepsFirst (since : Instant) (events kept : List Event) : Prop where
  ascending : Ascending kept
  times (t : Instant) : t ∈ kept.map Event.time ↔ since < t ∧ t ∈ events.map Event.time
  first : ∀ e ∈ kept, firstAt e.time events = some e

theorem mem_times_iff {t : Instant} {events : List Event} :
    t ∈ events.map Event.time ↔ ∃ e, firstAt t events = some e := by
  rw [← Option.isSome_iff_exists, firstAt, List.find?_isSome]
  simp

theorem time_of_firstAt {t : Instant} {events : List Event} {e : Event}
    (h : firstAt t events = some e) : e.time = t := by
  simpa using List.find?_some h

theorem keepsFirst_distinctSince (since : Instant) (events : List Event) :
    KeepsFirst since events (distinctSince since events) where
  ascending := distinctSince_ascending since events
  times t := by
    constructor
    · intro h
      obtain ⟨e, hkept, rfl⟩ := List.mem_map.1 h
      obtain ⟨hafter, hfirst⟩ := mem_distinctSince.1 hkept
      exact ⟨hafter, List.mem_map_of_mem (List.mem_of_find?_eq_some hfirst)⟩
    · rintro ⟨hafter, hoccurs⟩
      obtain ⟨e, hfirst⟩ := mem_times_iff.1 hoccurs
      obtain rfl := time_of_firstAt hfirst
      exact List.mem_map_of_mem (mem_distinctSince.2 ⟨hafter, hfirst⟩)
  first e hkept := (mem_distinctSince.1 hkept).2

/-- The members of a list that keeps the first events are determined by the events. -/
theorem KeepsFirst.mem_iff {since : Instant} {events kept : List Event}
    (h : KeepsFirst since events kept) {e : Event} :
    e ∈ kept ↔ since < e.time ∧ firstAt e.time events = some e := by
  constructor
  · intro he
    exact ⟨((h.times e.time).1 (List.mem_map_of_mem he)).1, h.first e he⟩
  · rintro ⟨hafter, hfirst⟩
    have hoccurs := List.mem_map_of_mem (f := Event.time) (List.mem_of_find?_eq_some hfirst)
    obtain ⟨k, hkept, hsame⟩ := List.mem_map.1 ((h.times e.time).2 ⟨hafter, hoccurs⟩)
    have hboth := h.first k hkept
    rw [hsame, hfirst] at hboth
    exact Option.some.inj hboth ▸ hkept

theorem KeepsFirst.unique {since : Instant} {events kept : List Event}
    (h : KeepsFirst since events kept) : kept = distinctSince since events :=
  h.ascending.eq_of_mem_iff (distinctSince_ascending since events) fun _ =>
    h.mem_iff.trans mem_distinctSince.symm

/-- Of events in ascending order each is the first at its time. -/
theorem Ascending.firstAt_eq_some_iff {events : List Event} (h : Ascending events) {e : Event} :
    firstAt e.time events = some e ↔ e ∈ events := by
  induction events with
  | nil => simp [firstAt]
  | cons y r ih =>
      obtain ⟨hlater, hr⟩ := List.pairwise_cons.1 h
      by_cases hsame : y.time = e.time
      · have hapart : e ∉ r := fun he => (hlater e he).ne hsame
        simp [firstAt, hsame, hapart, eq_comm]
      · have hother : e ≠ y := fun h => hsame (h ▸ rfl)
        have hrest : firstAt e.time (y :: r) = firstAt e.time r := by simp [firstAt, hsame]
        rw [hrest, ih hr, List.mem_cons, or_iff_right hother]

/-- Keeping events twice is keeping them once, after the later of the two bounds. -/
theorem distinctSince_distinctSince (since bound : Instant) (events : List Event) :
    distinctSince bound (distinctSince since events) = distinctSince (max since bound) events := by
  have hkept := distinctSince_ascending since events
  refine (distinctSince_ascending bound _).eq_of_mem_iff (distinctSince_ascending _ _) fun e => ?_
  calc
    e ∈ distinctSince bound (distinctSince since events)
    _ ↔ bound < e.time ∧ e ∈ distinctSince since events := by
      rw [mem_distinctSince, hkept.firstAt_eq_some_iff]
    _ ↔ max since bound < e.time ∧ firstAt e.time events = some e := by
      rw [mem_distinctSince, max_lt_iff, and_assoc, and_left_comm]
    _ ↔ e ∈ distinctSince (max since bound) events := mem_distinctSince.symm

/-- What a poll keeps of some events is the one list with the first event for each time after the
bound, in the order of the times. So a second poll of what is kept keeps what is after both
bounds. -/
theorem distinctSince_is_determined (since : Instant) (events : List Event) :
    (∀ kept, KeepsFirst since events kept ↔ kept = distinctSince since events) ∧
      ∀ bound, distinctSince bound (distinctSince since events) =
        distinctSince (max since bound) events := by
  refine ⟨fun kept => ⟨KeepsFirst.unique, ?_⟩, fun bound => ?_⟩
  · rintro rfl
    exact keepsFirst_distinctSince since events
  · exact distinctSince_distinctSince since bound events

end Characterisation

section Resumption

/-- The time of the last of some events, or the instant before them. -/
def lastTime (start : Instant) (events : List Event) : Instant :=
  (events.getLast?.map Event.time).getD start

@[simp] theorem lastTime_nil (start : Instant) : lastTime start [] = start := rfl

theorem lastTime_append (start : Instant) (front back : List Event) :
    lastTime start (front ++ back) = lastTime (lastTime start front) back := by
  unfold lastTime
  rw [List.getLast?_append]
  cases back.getLast? <;> rfl

theorem le_lastTime {start : Instant} {events : List Event}
    (h : ∀ e ∈ events, start < e.time) : start ≤ lastTime start events := by
  unfold lastTime
  cases hlast : events.getLast? with
  | none => exact le_refl start
  | some e => exact (h e (List.mem_of_getLast? hlast)).le

theorem Ascending.time_le_lastTime {start : Instant} {events : List Event} (ha : Ascending events)
    {e : Event} (he : e ∈ events) : e.time ≤ lastTime start events := by
  obtain ⟨init, last, rfl⟩ : ∃ init last, events = init ++ [last] :=
    ⟨_, _, (List.dropLast_append_getLast (List.ne_nil_of_mem he)).symm⟩
  obtain ⟨-, -, hlast⟩ := List.pairwise_append.1 ha
  have htime : lastTime start (init ++ [last]) = last.time := by simp [lastTime]
  rw [htime]
  rcases List.mem_append.1 he with he | he
  · exact (hlast e he last (List.mem_singleton.2 rfl)).le
  · rw [List.mem_singleton.1 he]

theorem Ascending.lastTime_lt {start : Instant} {front back : List Event}
    (ha : Ascending (front ++ back)) (hs : ∀ e ∈ front ++ back, start < e.time) {e : Event}
    (he : e ∈ back) : lastTime start front < e.time := by
  obtain ⟨-, -, hcross⟩ := List.pairwise_append.1 ha
  unfold lastTime
  cases hlast : front.getLast? with
  | none => exact hs e (List.mem_append_right front he)
  | some x => exact hcross x (List.mem_of_getLast? hlast) e he

/-- What lies after the last of the first events are the others. -/
theorem Ascending.filter_after {start : Instant} {front back : List Event}
    (ha : Ascending (front ++ back)) (hs : ∀ e ∈ front ++ back, start < e.time) :
    ((front ++ back).filter fun e => decide (lastTime start front < e.time)) = back := by
  obtain ⟨hfront, -, -⟩ := List.pairwise_append.1 ha
  rw [List.filter_append]
  have hgone : (front.filter fun e => decide (lastTime start front < e.time)) = [] := by
    apply List.filter_eq_nil_iff.2
    intro e he
    simpa using Ascending.time_le_lastTime hfront he
  have hkept : (back.filter fun e => decide (lastTime start front < e.time)) = back := by
    apply List.filter_eq_self.2
    intro e he
    simpa using Ascending.lastTime_lt ha hs he
  rw [hgone, hkept, List.nil_append]

/-- Polling a capture from the time of an event that was kept gives what was kept after it. -/
theorem distinctSince_lastTime {start : Instant} {events front back : List Event}
    (h : distinctSince start events = front ++ back) :
    distinctSince (lastTime start front) events = back := by
  have hafter : ∀ e ∈ front ++ back, start < e.time := fun e he =>
    (mem_distinctSince.1 (h ▸ he)).1
  have hle : start ≤ lastTime start front :=
    le_lastTime fun e he => hafter e (List.mem_append_left back he)
  rw [distinctSince_of_le hle, h]
  exact Ascending.filter_after (h ▸ distinctSince_ascending start events) hafter

end Resumption

section Cap

theorem distinctAfter_take (last : Instant) (events : List Event) (n : Nat) :
    distinctAfter last (events.take n) <+: distinctAfter last events := by
  induction events generalizing last n with
  | nil => simp
  | cons y r ih =>
      cases n with
      | zero => simp [distinctAfter]
      | succ n =>
          by_cases hy : y.time = last
          · simpa only [List.take_succ_cons, distinctAfter, if_pos hy] using ih last n
          · simp only [List.take_succ_cons, distinctAfter, if_neg hy]
            exact List.cons_prefix_cons.2 ⟨rfl, ih y.time n⟩

theorem firstOfEach_take (events : List Event) (n : Nat) :
    firstOfEach (events.take n) <+: firstOfEach events := by
  cases events with
  | nil => simp
  | cons y r =>
      cases n with
      | zero => simp [firstOfEach]
      | succ n => exact List.cons_prefix_cons.2 ⟨rfl, distinctAfter_take y.time r n⟩

theorem firstOfEach_eq_nil {events : List Event} : firstOfEach events = [] ↔ events = [] := by
  cases events <;> simp [firstOfEach]

theorem distinctSince_oldestSince (since : Instant) (limit : Nat) (events : List Event) :
    distinctSince since (oldestSince since limit events) =
      firstOfEach ((sortedSince since events).take limit) := by
  have ho : Chronological ((sortedSince since events).take limit) :=
    (sortedSince_chronological since events).sublist (List.take_sublist _ _)
  rw [distinctSince, oldestSince, sortedSince_of_chronological ho]
  exact fun e he => (mem_sortedSince.1 (List.mem_of_mem_take he)).2

/-- A cap on the rows cuts off an end of what is kept. -/
theorem capped_poll_prefix (since : Instant) (limit : Nat) (events : List Event) :
    distinctSince since (oldestSince since limit events) <+: distinctSince since events := by
  rw [distinctSince_oldestSince]
  exact firstOfEach_take _ _

/-- A cap that lets something through lets the first event through. -/
theorem capped_poll_eq_nil {since : Instant} {limit : Nat} (hlimit : 0 < limit)
    {events : List Event} :
    distinctSince since (oldestSince since limit events) = [] ↔
      distinctSince since events = [] := by
  rw [distinctSince_oldestSince, firstOfEach_eq_nil, distinctSince, firstOfEach_eq_nil,
    List.take_eq_nil_iff]
  exact or_iff_right (Nat.pos_iff_ne_zero.1 hlimit)

theorem length_sortedSince (since : Instant) (events : List Event) :
    (sortedSince since events).length = events.countP fun e => decide (since < e.time) := by
  rw [sortedSince, List.length_mergeSort, List.countP_eq_length_filter]

/-- A cap that is not exceeded by the events after the bound cuts nothing off. -/
theorem capped_poll_of_le {since : Instant} {limit : Nat} {events : List Event}
    (h : (events.countP fun e => decide (since < e.time)) ≤ limit) :
    distinctSince since (oldestSince since limit events) = distinctSince since events := by
  have hshort : (sortedSince since events).length ≤ limit := by rwa [length_sortedSince]
  rw [distinctSince_oldestSince, List.take_of_length_le hshort, distinctSince]

end Cap

end DeadlockCapture.Source
