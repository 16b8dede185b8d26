import DeadlockCapture.Proofs.Forward

/-!
What a bound on looking back costs. A poll begins at the bound when the mark lies further back, and
what lies between the two is passed over for good. Nothing else is ever passed over: whatever is cut
off, put off or refused on the way, an event of a fixed capture that lies under the mark has been
handed out, or it lay behind the bound of some cycle.
-/

namespace DeadlockCapture.Collection

open Report (Event Row)
open Source (distinctSince firstAt lastTime)
open Storage (Marks)
open Time (Instant)

/-- An instant lies behind the bound that the cycle with this fate has on looking back. -/
def Fate.Bars (f : Fate) (lookback? : Option Int) (t : Instant) : Prop :=
  ∃ lookback bound, lookback? = some lookback ∧ f.now.shift? (-lookback) = some bound ∧ t ≤ bound

/-- A poll that begins after the mark begins at the bound. -/
theorem Collector.bars_of_lt {c : Collector} {f : Fate} {since t : Instant}
    (hs : c.pollSince f.now = some since) (hmark : c.mark.value < t) (ht : t ≤ since) :
    f.Bars c.settings.lookback t := by
  unfold Collector.pollSince at hs
  cases hlookback : c.settings.lookback with
  | none =>
      simp only [hlookback, Option.some.injEq] at hs
      exact absurd (hs ▸ ht) (not_le.2 hmark)
  | some lookback =>
      simp only [hlookback, Source.effectiveSince, Option.map_eq_some_iff] at hs
      obtain ⟨bound, hbound, hsince⟩ := hs
      split at hsince
      · exact ⟨lookback, bound, rfl, hbound, hsince ▸ ht⟩
      · exact absurd (hsince ▸ ht) (not_le.2 hmark)

/-- How a history stands to a capture: it has handed out rows of kept events only, and each kept
event under the mark has its row among them or was barred in some cycle. -/
structure Accounted (c : Collector) (events : List Event) (past : List Fate) (h : History) :
    Prop where
  settings : h.collector.settings = c.settings
  genuine : ∀ row ∈ h.rows, ∃ e ∈ distinctSince c.mark.value events,
    row = c.settings.assembler.buildRow e
  shown : ∀ e ∈ distinctSince c.mark.value events, e.time ≤ h.collector.mark.value →
    c.settings.assembler.buildRow e ∈ h.rows ∨ ∃ f ∈ past, f.Bars c.settings.lookback e.time

namespace Accounted

variable {c : Collector} {events : List Event} {past : List Fate} {h : History} {f : Fate}

theorem start (c : Collector) (store : Marks) (events : List Event) :
    Accounted c events [] ⟨c, store, []⟩ := by
  refine ⟨rfl, fun row hrow => absurd hrow List.not_mem_nil, fun e he hmark => ?_⟩
  have hlater := (Source.mem_distinctSince.1 he).1
  exact absurd hmark (not_le.2 hlater)

theorem more (ha : Accounted c events past h) (f : Fate) : Accounted c events (past ++ [f]) h := by
  refine ⟨ha.settings, ha.genuine, fun e he hmark => ?_⟩
  rcases ha.shown e he hmark with hrow | ⟨g, hg, hbars⟩
  · exact .inl hrow
  · exact .inr ⟨g, List.mem_append_left [f] hg, hbars⟩

/-- What a cycle hands out, and what it passes over between the old mark and the new one. -/
theorem deliver (ha : Accounted c events past h) {since : Instant} {front back : List Event}
    (hstart : c.mark.value ≤ h.collector.mark.value)
    (hs : h.collector.pollSince f.now = some since)
    (hfound : front ++ back <+: distinctSince since events)
    {collector : Collector} {store : Marks} (hsettings : collector.settings = c.settings)
    (hmark : collector.mark.value = lastTime h.collector.mark.value front) :
    Accounted c events (past ++ [f])
      ⟨collector, store, h.rows ++ front.map c.settings.assembler.buildRow⟩ := by
  have hle := Collector.mark_le_pollSince hs
  obtain ⟨rest, hkept⟩ : ∃ rest, front ++ rest = distinctSince since events := by
    obtain ⟨rest, hrest⟩ := hfound
    exact ⟨back ++ rest, by rw [← hrest, List.append_assoc]⟩
  have hafter : ∀ e ∈ front ++ rest, since < e.time := fun e he =>
    (Source.mem_distinctSince.1 (hkept ▸ he)).1
  refine ⟨hsettings, fun row hrow => ?_, fun e he hreached => ?_⟩
  · rcases List.mem_append.1 hrow with hold | hnew
    · exact ha.genuine row hold
    · obtain ⟨e, he, rfl⟩ := List.mem_map.1 hnew
      have hmem : e ∈ distinctSince since events := hkept ▸ List.mem_append_left rest he
      obtain ⟨hlater, hfirst⟩ := Source.mem_distinctSince.1 hmem
      have hfirstLater : c.mark.value < e.time := (hstart.trans hle).trans_lt hlater
      exact ⟨e, Source.mem_distinctSince.2 ⟨hfirstLater, hfirst⟩, rfl⟩
  · obtain ⟨-, hfirst⟩ := Source.mem_distinctSince.1 he
    by_cases hold : e.time ≤ h.collector.mark.value
    · rcases (ha.more f).shown e he hold with hrow | hbarred
      · exact .inl (List.mem_append_left _ hrow)
      · exact .inr hbarred
    by_cases hbarred : e.time ≤ since
    · have hbars := Collector.bars_of_lt hs (not_le.1 hold) hbarred
      rw [ha.settings] at hbars
      exact .inr ⟨f, List.mem_append_right past (List.mem_singleton.2 rfl), hbars⟩
    -- The poll has seen the event, so it is among the first ones, up to the new mark.
    · have hmem : e ∈ front ++ rest :=
        hkept ▸ Source.mem_distinctSince.2 ⟨not_le.1 hbarred, hfirst⟩
      rcases List.mem_append.1 hmem with hfront | hrest
      · exact .inl (List.mem_append_right _ (List.mem_map_of_mem hfront))
      · have hascending : Source.Ascending (front ++ rest) :=
          hkept ▸ Source.distinctSince_ascending since events
        have hbeyond : lastTime h.collector.mark.value front < e.time :=
          hascending.lastTime_lt (fun e he => hle.trans_lt (hafter e he)) hrest
        rw [hmark] at hreached
        exact absurd hbeyond (not_lt.2 hreached)

/-- One cycle of a collector that polls a capture. -/
theorem after (ha : Accounted c events past h) (hstart : c.mark.value ≤ h.collector.mark.value)
    (hf : f.Replays events) : Accounted c events (past ++ [f]) (h.after f) := by
  rcases hrun : (h.collector.runCycle f.surroundings f.now).run ⟨h.store, []⟩ with ⟨_ | cycle, w⟩
  · have hafter : h.after f = h := by rw [History.after, hrun]
    rw [hafter]
    exact ha.more f
  have hafter : h.after f =
      ⟨cycle.collector, w.store, h.rows ++ h.collector.takenRows f w.offers⟩ := by
    rw [History.after, hrun]
  rw [hafter]
  have hstay : cycle.collector.settings = h.collector.settings →
      cycle.collector.mark = h.collector.mark → h.collector.takenRows f w.offers = [] →
      Accounted c events (past ++ [f])
        ⟨cycle.collector, w.store, h.rows ++ h.collector.takenRows f w.offers⟩ := by
    intro hsettings hmark hrows
    rw [hrows, List.append_nil]
    refine ⟨hsettings.trans ha.settings, ha.genuine, fun e he hreached => ?_⟩
    exact (ha.more f).shown e he (hmark ▸ hreached)
  rcases Collector.runCycle_cases hrun with ⟨hdisabled, rfl, rfl⟩ | ⟨since, hs, hcourse⟩
  · exact hstay rfl rfl
      (Collector.takenRows_of_no_payload (Collector.payload?_of_disabled f hdisabled))
  · rcases hcourse.effect hs with ⟨hrows, hmark, -, -⟩ | ⟨front, back, hp, -, hrows, hmark⟩
    · exact hstay hcourse.settings_eq hmark hrows
    · rw [hrows, ha.settings]
      exact ha.deliver hstart hs (hf.polled hp).1 (hcourse.settings_eq.trans ha.settings)
        (congrArg Mark.value hmark)

theorem afterAll {fates : List Fate} (ha : Accounted c events past h)
    (hforward : Forward c.mark.value (h.rows.map Row.time) h.collector.mark.value)
    (hf : ∀ f ∈ fates, f.Replays events) :
    Accounted c events (past ++ fates) (h.afterAll fates) := by
  induction fates generalizing h past with
  | nil =>
      rw [List.append_nil]
      exact ha
  | cons f r ih =>
      obtain ⟨hfirst, hrest⟩ := List.forall_mem_cons.1 hf
      have hafter := ih (ha.after hforward.start_le hfirst) (hforward.after f) hrest
      rwa [List.append_assoc, List.singleton_append] at hafter

end Accounted

/-- After any number of cycles on a fixed capture, however the clock jumps, wherever rows are cut
off and whatever fails: what has been handed out are rows of events that the capture keeps, and an
event under the mark that has no row at its time lies behind the bound on looking back of some
cycle. -/
theorem gaps_lie_behind_lookback (c : Collector) (store : Marks) (events : List Event)
    (fates : List Fate) (hfates : ∀ f ∈ fates, f.Replays events) :
    let reached := History.afterAll ⟨c, store, []⟩ fates
    (∀ row ∈ reached.rows, ∃ e ∈ distinctSince c.mark.value events,
        row = c.settings.assembler.buildRow e) ∧
      ∀ e ∈ events, c.mark.value < e.time → e.time ≤ reached.collector.mark.value →
        (∀ row ∈ reached.rows, row.time ≠ e.time) →
        ∃ f ∈ fates, ∃ lookback bound, c.settings.lookback = some lookback ∧
          f.now.shift? (-lookback) = some bound ∧ e.time ≤ bound := by
  intro reached
  have haccounted : Accounted c events fates reached :=
    (Accounted.start c store events).afterAll (.stay c.mark.value) hfates
  refine ⟨haccounted.genuine, fun e he hlater hreached hmissing => ?_⟩
  obtain ⟨first, hfirst⟩ : ∃ first, firstAt e.time events = some first :=
    Option.isSome_iff_exists.1 (List.find?_isSome.2 ⟨e, he, decide_eq_true rfl⟩)
  have htime : first.time = e.time := by simpa using List.find?_some hfirst
  have hkept : first ∈ distinctSince c.mark.value events :=
    Source.mem_distinctSince.2 ⟨htime ▸ hlater, htime ▸ hfirst⟩
  rcases haccounted.shown first hkept (htime ▸ hreached) with hrow | ⟨f, hf, hbars⟩
  · exact absurd ((Report.time_buildRow _ first).trans htime) (hmissing _ hrow)
  · exact ⟨f, hf, htime ▸ hbars⟩

section Sample

/-- A collector that looks back three seconds at most. -/
def boundedCollector : Collector :=
  .new { sampleCollector.settings with lookback := some 3000000000 } none .epoch

def lateFate : Fate :=
  { Fate.smooth sampleEvents with now := sampleTime 10 }

theorem boundedCollector_since : boundedCollector.pollSince lateFate.now = some (sampleTime 7) := by
  decide

theorem boundedCollector_polled :
    boundedCollector.polled lateFate (sampleTime 7) = .ok [⟨sampleTime 9, "late"⟩] := by
  have hsorted : Source.sortedSince (sampleTime 7) sampleEvents =
      [⟨sampleTime 9, "late"⟩, ⟨sampleTime 9, "late again"⟩] :=
    List.mergeSort_of_pairwise (by decide)
  show Except.ok (distinctSince (sampleTime 7)
    (Source.oldestSince (sampleTime 7) 2 sampleEvents)) = _
  rw [Source.distinctSince_oldestSince, hsorted]
  decide

/-- The one cycle hands out the event at nine seconds and passes over the others. -/
theorem boundedCollector_run :
    ∃ collector store,
      History.afterAll ⟨boundedCollector, .empty, []⟩ [lateFate] = ⟨collector, store,
        [boundedCollector.settings.assembler.buildRow ⟨sampleTime 9, "late"⟩]⟩ ∧
      collector.mark.value = sampleTime 9 := by
  obtain ⟨cycle, w, hrun, hcourse⟩ :=
    boundedCollector.runCycle_course lateFate .empty rfl boundedCollector_since
  have haccepted : lateFate.refusalFrom 0 boundedCollector.settings.sinks = none :=
    refusalFrom_eq_none fun _ _ => rfl
  rcases hcourse.effect boundedCollector_since with
    ⟨-, -, -, hreason⟩ | ⟨front, back, hp, hne, hrows, hmark⟩
  · cases hreason haccepted _ boundedCollector_polled
  · rw [boundedCollector_polled, Except.ok.injEq] at hp
    obtain ⟨e, front, rfl⟩ := List.exists_cons_of_ne_nil hne
    obtain ⟨rfl, rfl, rfl⟩ : ⟨sampleTime 9, "late"⟩ = e ∧ front = [] ∧ back = [] := by
      simpa using hp
    refine ⟨cycle.collector, w.store, ?_, congrArg Mark.value hmark⟩
    rw [History.afterAll, List.foldl_cons, List.foldl_nil, History.after, hrun]
    simp only [hrows, List.map_cons, List.map_nil, List.nil_append]

theorem bounded_run_leaves_gap_behind_lookback :
    ∃ reached, History.afterAll ⟨boundedCollector, .empty, []⟩ [lateFate] = reached ∧
      (∀ f ∈ [lateFate], f.Replays sampleEvents) ∧ ⟨sampleTime 5, ""⟩ ∈ sampleEvents ∧
      boundedCollector.mark.value < sampleTime 5 ∧
      sampleTime 5 ≤ reached.collector.mark.value ∧
      (∀ row ∈ reached.rows, row.time ≠ sampleTime 5) ∧
      ∃ f ∈ [lateFate], ∃ lookback bound, boundedCollector.settings.lookback = some lookback ∧
        f.now.shift? (-lookback) = some bound ∧ sampleTime 5 ≤ bound := by
  have hreplays : ∀ f ∈ [lateFate], f.Replays sampleEvents := by
    intro f hf
    rw [List.mem_singleton.1 hf]
    exact smooth_replays sampleEvents
  have hmem : ⟨sampleTime 5, ""⟩ ∈ sampleEvents := by decide
  have hlater : boundedCollector.mark.value < sampleTime 5 := by decide
  obtain ⟨-, hgaps⟩ :=
    gaps_lie_behind_lookback boundedCollector .empty sampleEvents [lateFate] hreplays
  obtain ⟨collector, store, hrun, hmark⟩ := boundedCollector_run
  rw [hrun] at hgaps
  have hbelow : sampleTime 5 ≤ collector.mark.value := by
    rw [hmark]
    decide
  have hmissing : ∀ row ∈ [boundedCollector.settings.assembler.buildRow ⟨sampleTime 9, "late"⟩],
      row.time ≠ sampleTime 5 := by
    intro row hrow
    rw [List.mem_singleton.1 hrow, Report.time_buildRow]
    decide
  exact ⟨_, hrun, hreplays, hmem, hlater, hbelow, hmissing,
    hgaps ⟨sampleTime 5, ""⟩ hmem hlater hbelow hmissing⟩

end Sample

end DeadlockCapture.Collection
