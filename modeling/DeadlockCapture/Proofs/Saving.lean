import DeadlockCapture.Proofs.Forward

/-!
The mark in the collector and the mark in the store. A cycle that fails at its source or at a sink
changes neither. A cycle whose save fails has moved the mark of the collector, and no later cycle
makes up for the save until it delivers something itself: the store holds the collector's mark just
when the save after the latest delivery was kept.
-/

namespace DeadlockCapture.Collection

open Report (Event Payload Row)
open Storage (Marks)
open Time (Instant)

section Failure

variable {c : Collector} {f : Fate} {store : Marks} {cycle : Cycle} {w : World}

/-- Collectors with the same settings and the same mark poll alike and put together the same
payload. -/
theorem payload?_congr {c d : Collector} (hsettings : d.settings = c.settings)
    (hmark : d.mark = c.mark) (g : Fate) :
    d.pollSince g.now = c.pollSince g.now ∧ d.payload? g = c.payload? g := by
  have hsince : d.pollSince g.now = c.pollSince g.now := by
    simp only [Collector.pollSince, hsettings, hmark]
  refine ⟨hsince, ?_⟩
  simp only [Collector.payload?, hsince, Collector.polled, Collector.payloadOf,
    Collector.assembled, hsettings]

/-- A cycle that fails leaves the store as it is. Unless it is the save that fails, it leaves the
mark as well, so that the next cycle polls from where this one did and puts together what this one
would have. A save that fails leaves the mark at the last row of a payload that every sink has
taken. -/
theorem failed_cycle_keeps_mark {x : Failure}
    (hrun : (c.runCycle f.surroundings f.now).run ⟨store, []⟩ = (some cycle, w))
    (hend : cycle.progress = .ended (.error x)) :
    w.store = store ∧
      ((∀ y, x ≠ .checkpoint y) → cycle.collector.mark = c.mark ∧
        ∀ g : Fate, cycle.collector.pollSince g.now = c.pollSince g.now ∧
          cycle.collector.payload? g = c.payload? g) ∧
      ∀ y, x = .checkpoint y → f.save = some y ∧ ∃ p row, c.payload? f = some p ∧
        w.offers = c.settings.sinks.map (⟨·, p, none⟩) ∧ p.rows.getLast? = some row ∧
        c.mark.value < row.time ∧ cycle.collector.mark = ⟨c.mark.instanceName, row.time⟩ := by
  rcases Collector.runCycle_cases hrun with ⟨-, rfl, -⟩ | ⟨since, hs, hcourse⟩
  · cases hend
  · cases hcourse with
    | sourceFails hpolled =>
        cases hend
        exact ⟨rfl, fun _ => ⟨rfl, payload?_congr rfl rfl⟩, nofun⟩
    | sinkRefuses hpayload hrefused =>
        cases hend
        exact ⟨rfl, fun _ => ⟨rfl, payload?_congr rfl rfl⟩, nofun⟩
    | saveFails hpayload haccepted hlast hlater hdenied =>
        cases hend
        refine ⟨rfl, fun hother => absurd rfl (hother _), fun y hy => ?_⟩
        cases hy
        exact ⟨hdenied, _, _, hpayload, offersFrom_of_accepted haccepted, hlast, hlater, rfl⟩
    | nothingNew hpolled => cases hend
    | saved hpolled hpayload haccepted hlast hlater hkept => cases hend

end Failure

theorem refused_poll_keeps_mark :
    let f := { Fate.smooth sampleEvents with source := fun _ _ => .error (.connection "refused") }
    ∃ cycle w, (sampleCollector.runCycle f.surroundings f.now).run ⟨.empty, []⟩ =
        (some cycle, w) ∧
      cycle.progress = .ended (.error (.source (.connection "refused"))) ∧
      w.store = .empty ∧ cycle.collector.mark = sampleCollector.mark ∧
      cycle.collector.payload? (.smooth sampleEvents) =
        sampleCollector.payload? (.smooth sampleEvents) := by
  intro f
  obtain ⟨cycle, w, hrun, hend⟩ :
      ∃ cycle w, (sampleCollector.runCycle f.surroundings f.now).run ⟨.empty, []⟩ =
        (some cycle, w) ∧
        cycle.progress = .ended (.error (.source (.connection "refused"))) := ⟨_, _, rfl, rfl⟩
  obtain ⟨hstore, hkeeps, -⟩ := failed_cycle_keeps_mark hrun hend
  obtain ⟨hmark, hnext⟩ := hkeeps nofun
  exact ⟨cycle, w, hrun, hend, hstore, hmark, (hnext _).2⟩

/-- A cycle whose poll gives something, which every sink takes, but whose save fails: it fails with
the mark moved and the store left behind. -/
theorem Collector.runCycle_of_denied {c : Collector} {f : Fate} {since : Instant}
    {events : List Event} {x : Storage.CheckpointFault} (store : Marks)
    (henabled : c.settings.enabled = true) (hs : c.pollSince f.now = some since)
    (hp : c.polled f since = .ok events) (hne : events ≠ []) (haccepts : f.Accepts c)
    (hdenied : f.save = some x) :
    ∃ cycle w, (c.runCycle f.surroundings f.now).run ⟨store, []⟩ = (some cycle, w) ∧
      cycle.progress = .ended (.error (.checkpoint x)) ∧ cycle.collector.settings = c.settings ∧
      c.mark.value < cycle.collector.mark.value ∧ w.store = store ∧
      c.takenRows f w.offers ≠ [] := by
  obtain ⟨cycle, w, hrun, hcourse⟩ := c.runCycle_course f store henabled hs
  have hnone : f.refusalFrom 0 c.settings.sinks = none :=
    refusalFrom_eq_none fun i hi => haccepts i (by omega)
  refine ⟨cycle, w, hrun, ?_⟩
  cases hcourse with
  | sourceFails hpolled => simp [hp] at hpolled
  | nothingNew hpolled => simp [hp, hne] at hpolled
  | sinkRefuses hpayload hrefused => simp [hnone] at hrefused
  | saved hpolled hpayload haccepted hlast hlater hkept => simp [hdenied] at hkept
  | saveFails hpayload haccepted hlast hlater hsave =>
      rw [hdenied, Option.some.injEq] at hsave
      subst hsave
      refine ⟨rfl, rfl, hlater, rfl, ?_⟩
      rw [Collector.takenRows_of_accepted hpayload haccepted]
      exact List.ne_nil_of_mem (List.mem_of_getLast? hlast)

/-- The store denies the save, and all else is smooth. -/
def deniedFate : Fate :=
  { Fate.smooth sampleEvents with save := some .corrupt }

theorem deniedFate_accepts : deniedFate.Accepts sampleCollector :=
  fun _ _ => rfl

theorem sampleCollector_polled :
    sampleCollector.polled deniedFate .epoch =
      .ok (Source.distinctSince .epoch (Source.oldestSince .epoch 2 sampleEvents)) :=
  rfl

theorem sampleEvents_new :
    Source.distinctSince .epoch (Source.oldestSince .epoch 2 sampleEvents) ≠ [] := by
  rw [Ne, Source.capped_poll_eq_nil Nat.two_pos, Source.distinctSince, Source.firstOfEach_eq_nil]
  have hearly : (⟨sampleTime 1, "early"⟩ : Event) ∈ Source.sortedSince .epoch sampleEvents :=
    Source.mem_sortedSince.2 ⟨by simp [sampleEvents], by decide⟩
  exact List.ne_nil_of_mem hearly

/-- A cycle that fails may move the mark. -/
theorem denied_save_moves_mark :
    ∃ cycle w x, (sampleCollector.runCycle deniedFate.surroundings deniedFate.now).run
        ⟨.empty, []⟩ = (some cycle, w) ∧
      cycle.progress = .ended (.error x) ∧ cycle.collector.mark ≠ sampleCollector.mark := by
  obtain ⟨cycle, w, hrun, hend, -, hlater, -, -⟩ :=
    Collector.runCycle_of_denied .empty rfl rfl sampleCollector_polled sampleEvents_new
      deniedFate_accepts rfl
  exact ⟨cycle, w, _, hrun, hend, fun hmark => hlater.ne (by rw [hmark])⟩

/-- A turn either takes nothing and leaves mark and store as they are, or it takes rows and moves
the mark; then the store gets the new mark if the turn is completed, and else stays behind. -/
inductive Turn.Saves (before : Marks) (t : Turn) (after : Collector) (saved : Marks) : Prop where
  | idle (htaken : t.taken = []) (hmark : after.mark = t.collector.mark) (hstore : saved = before)
  | kept (htaken : t.taken ≠ []) (hcompleted : t.Completed)
      (hstore : saved = before.insert t.collector.mark.instanceName after.mark.value)
  | lost (htaken : t.taken ≠ []) (hfailed : ¬ t.Completed)
      (hlater : t.collector.mark.value < after.mark.value) (hstore : saved = before)

theorem Course.saves {c : Collector} {f : Fate} {store : Marks} {since : Instant} {cycle : Cycle}
    {w : World} (h : Course c f store since cycle w) (hs : c.pollSince f.now = some since) :
    Turn.Saves store ⟨c, f, w.offers, cycle.progress⟩ cycle.collector w.store := by
  have htakes {p : Payload} {row : Row} (hp : c.payload? f = some p)
      (haccepted : f.refusalFrom 0 c.settings.sinks = none)
      (hlast : p.rows.getLast? = some row) :
      c.takenRows f (f.offersFrom p 0 c.settings.sinks) ≠ [] := by
    rw [Collector.takenRows_of_accepted hp haccepted]
    exact List.ne_nil_of_mem (List.mem_of_getLast? hlast)
  cases h with
  | sourceFails hpolled =>
      have hnone := Collector.payload?_of_source_fails hs hpolled
      exact .idle (Collector.takenRows_of_no_payload hnone) rfl rfl
  | nothingNew hpolled =>
      have hnone := Collector.payload?_of_nothing_new hs hpolled
      exact .idle (Collector.takenRows_of_no_payload hnone) rfl rfl
  | sinkRefuses hpayload hrefused => exact .idle (Collector.takenRows_of_refused hrefused) rfl rfl
  | saveFails hpayload haccepted hlast hlater hdenied =>
      exact .lost (htakes hpayload haccepted hlast) (fun ⟨_, hend⟩ => by cases hend) hlater rfl
  | saved hpolled hpayload haccepted hlast hlater hkept =>
      exact .kept (htakes hpayload haccepted hlast) ⟨_, rfl⟩ rfl

theorem Turn.saves_of_runCycle {c : Collector} {f : Fate} {store : Marks} {cycle : Cycle}
    {w : World} (hrun : (c.runCycle f.surroundings f.now).run ⟨store, []⟩ = (some cycle, w)) :
    Turn.Saves store ⟨c, f, w.offers, cycle.progress⟩ cycle.collector w.store := by
  rcases Collector.runCycle_cases hrun with ⟨hdisabled, rfl, rfl⟩ | ⟨since, hs, hcourse⟩
  · have hnone := Collector.payload?_of_disabled f hdisabled
    exact .idle (Collector.takenRows_of_no_payload hnone) rfl rfl
  · exact hcourse.saves hs

namespace Lifetime

variable {name : String} {start : Instant} {l : Lifetime}

/-- The latest turn that has handed out rows. -/
def lastDelivery? (turns : List Turn) : Option Turn :=
  turns.reverse.find? fun t => !t.taken.isEmpty

theorem lastDelivery?_concat (turns : List Turn) (t : Turn) :
    lastDelivery? (turns ++ [t]) = if t.taken = [] then lastDelivery? turns else some t := by
  by_cases h : t.taken = [] <;> simp [lastDelivery?, h]

/-- The store holds no mark after the collector's, and it holds the collector's mark just when the
turn of the latest delivery is completed. -/
structure Kept (name : String) (l : Lifetime) : Prop where
  instanceName : l.collector.mark.instanceName = name
  behind : ∀ m, l.store.get? name = some m → m ≤ l.collector.mark.value
  last : ∀ t ∈ lastDelivery? l.turns,
    l.store.get? name = some l.collector.mark.value ↔ t.Completed

theorem Kept.turn (h : l.Kept name) {t : Turn} {after : Collector} {saved : Marks}
    (ht : t.collector = l.collector) (hgoes : t.Goes after) (hsaves : t.Saves l.store after saved) :
    Kept name ⟨after, saved, l.turns ++ [t]⟩ := by
  have hname : t.collector.mark.instanceName = name := by rw [ht, h.instanceName]
  have hlast := lastDelivery?_concat l.turns t
  cases hsaves with
  | idle htaken hmark hstore =>
      subst hstore
      rw [if_pos htaken] at hlast
      refine ⟨hgoes.instanceName.trans hname, ?_, ?_⟩
      · rw [hmark, ht]
        exact h.behind
      · rw [hlast, hmark, ht]
        exact h.last
  | kept htaken hcompleted hstore =>
      rw [if_neg htaken] at hlast
      have hsaved : saved.get? name = some after.mark.value := by
        rw [hstore, hname, Marks.get?_insert, if_pos rfl]
      refine ⟨hgoes.instanceName.trans hname, fun m hm => ?_, fun u hu => ?_⟩
      · rw [hsaved, Option.some.injEq] at hm
        exact hm.ge
      · rw [hlast, Option.mem_some_iff] at hu
        exact ⟨fun _ => hu ▸ hcompleted, fun _ => hsaved⟩
  | lost htaken hfailed hlater hstore =>
      subst hstore
      rw [if_neg htaken] at hlast
      have hbefore : l.collector.mark.value < after.mark.value := ht ▸ hlater
      refine ⟨hgoes.instanceName.trans hname, fun m hm => ?_, fun u hu => ?_⟩
      · exact (h.behind m hm).trans hbefore.le
      · rw [hlast, Option.mem_some_iff] at hu
        refine ⟨fun hheld => absurd (h.behind _ hheld) (not_le.2 hbefore), fun hcompleted => ?_⟩
        exact absurd (hu ▸ hcompleted) hfailed

theorem Kept.after (h : l.Kept name) (f : Fate) : (l.after start (.cycle f)).Kept name := by
  rcases hrun : (l.collector.runCycle f.surroundings f.now).run ⟨l.store, []⟩ with ⟨_ | cycle, w⟩
  · simp only [Lifetime.after, hrun]
    exact h
  · simp only [Lifetime.after, hrun]
    exact h.turn rfl (Turn.goes_of_runCycle hrun) (Turn.saves_of_runCycle hrun)

theorem Kept.afterAll (h : l.Kept name) (fates : List Fate) :
    (l.afterAll start (fates.map .cycle)).Kept name := by
  induction fates generalizing l with
  | nil => exact h
  | cons f r ih => exact ih (h.after f)

/-- A collector that a store has given its mark is not behind the store. -/
theorem kept_of_build {settings : Settings} {store : Marks} {files : Storage.Files}
    {first : Collector}
    (hfirst : Collector.build settings (.memory store) files start = .ok first) :
    Kept settings.instanceName ⟨first, store, []⟩ := by
  have hload : (Storage.Store.memory store).load files settings.instanceName =
      .ok (store.get? settings.instanceName) := rfl
  rw [build_of_load hload, Except.ok.injEq] at hfirst
  subst hfirst
  refine ⟨rfl, fun m hm => ?_, fun t ht => ?_⟩
  · simp only [Collector.new, hm, Option.getD_some, le_refl]
  · cases ht

/-- A lifetime of cycles alone, as a history. -/
def history (l : Lifetime) : History :=
  ⟨l.collector, l.store, l.turns.flatMap Turn.taken⟩

theorem history_after (f : Fate) : (l.after start (.cycle f)).history = l.history.after f := by
  rcases hrun : (l.collector.runCycle f.surroundings f.now).run ⟨l.store, []⟩ with ⟨_ | cycle, w⟩
  · simp only [Lifetime.after, History.after, history, hrun]
  · simp [Lifetime.after, History.after, history, hrun, Turn.taken]

theorem history_afterAll (fates : List Fate) :
    (l.afterAll start (fates.map .cycle)).history = l.history.afterAll fates := by
  induction fates generalizing l with
  | nil => rfl
  | cons f r ih => exact ih.trans (congrArg (History.afterAll · r) (history_after f))

/-- What new turns offer lies after the mark that the collector had before them. -/
theorem offered_after_mark (fates : List Fate) {u : Turn}
    (hu : u ∈ (l.afterAll start (fates.map .cycle)).turns) :
    u ∈ l.turns ∨ ∀ row ∈ u.offered, l.collector.mark.value < row.time := by
  induction fates generalizing l with
  | nil => exact .inl hu
  | cons f r ih =>
      rcases hrun :
        (l.collector.runCycle f.surroundings f.now).run ⟨l.store, []⟩ with ⟨_ | cycle, w⟩
      · have hafter : l.after start (.cycle f) = l := by simp only [Lifetime.after, hrun]
        exact hafter ▸ ih hu
      · have hafter : l.after start (.cycle f) =
            ⟨cycle.collector, w.store,
              l.turns ++ [⟨l.collector, f, w.offers, cycle.progress⟩]⟩ := by
          simp only [Lifetime.after, hrun]
        have hgoes := Turn.goes_of_runCycle hrun
        rcases ih hu with hold | hlater
        · rw [hafter] at hold
          rcases List.mem_append.1 hold with hold | hnew
          · exact .inl hold
          · rw [List.mem_singleton.1 hnew]
            exact .inr hgoes.later
        · rw [hafter] at hlater
          exact .inr fun row hrow => hgoes.forward.start_le.trans_lt (hlater row hrow)

end Lifetime

/-- After any number of cycles in which a payload has been taken by every sink, whatever the source
has answered and whatever has failed: the store holds the collector's mark just when the turn of the
latest such payload was completed, so that its save was kept. Then a collector that is built from
the store has that mark, and offers nothing that does not lie after all that has been taken. -/
theorem store_holds_mark_of_completed_delivery {settings : Settings} {store : Marks}
    {files : Storage.Files} {start : Instant} {first : Collector} (fates : List Fate)
    (hfirst : Collector.build settings (.memory store) files start = .ok first) :
    let reached := Lifetime.afterAll start ⟨first, store, []⟩ (fates.map .cycle)
    ∀ t ∈ Lifetime.lastDelivery? reached.turns,
      (reached.store.get? settings.instanceName = some reached.collector.mark.value ↔
        t.Completed) ∧
      (t.Completed → ∀ (next : Settings) (files' : Storage.Files) (start' : Instant)
        (rebuilt : Collector), next.instanceName = settings.instanceName →
        Collector.build next (.memory reached.store) files' start' = .ok rebuilt →
        rebuilt.mark.value = reached.collector.mark.value ∧
        ∀ (later : List Fate),
          ∀ u ∈ (Lifetime.afterAll start' ⟨rebuilt, reached.store, []⟩ (later.map .cycle)).turns,
          ∀ row ∈ u.offered, ∀ old ∈ reached.turns.flatMap Turn.taken, old.time < row.time) := by
  intro reached t ht
  have hkept : reached.Kept settings.instanceName := (Lifetime.kept_of_build hfirst).afterAll fates
  have hholds := hkept.last t ht
  refine ⟨hholds, fun hcompleted next files' start' rebuilt hname hbuild => ?_⟩
  have hload : (Storage.Store.memory reached.store).load files' next.instanceName =
      .ok (some reached.collector.mark.value) := by
    rw [Storage.Store.load, hname, hholds.2 hcompleted]
  rw [build_of_load hload, Except.ok.injEq] at hbuild
  have hmark : rebuilt.mark.value = reached.collector.mark.value := by rw [← hbuild]; rfl
  refine ⟨hmark, fun later u hu row hrow old hold => ?_⟩
  have hforward : Forward first.mark.value (reached.history.rows.map Row.time)
      reached.history.collector.mark.value := by
    rw [Lifetime.history_afterAll]
    exact Forward.afterAll (h := ⟨first, store, []⟩) (.stay first.mark.value) fates
  have hbefore : old.time ≤ reached.collector.mark.value :=
    hforward.le_mark (List.mem_map_of_mem hold)
  rcases Lifetime.offered_after_mark later hu with hnone | hafter
  · cases hnone
  · exact (hbefore.trans hmark.ge).trans_lt (hafter row hrow)

theorem denied_delivery_leaves_store_behind :
    let reached := Lifetime.afterAll .epoch ⟨sampleCollector, .empty, []⟩
      ([deniedFate].map .cycle)
    Collector.build sampleCollector.settings (.memory .empty) {} .epoch = .ok sampleCollector ∧
      ∃ t ∈ Lifetime.lastDelivery? reached.turns, ¬ t.Completed ∧
        reached.store.get? "primary" ≠ some reached.collector.mark.value := by
  intro reached
  have hbuilt : Collector.build sampleCollector.settings (.memory .empty) {} .epoch =
      .ok sampleCollector := rfl
  obtain ⟨cycle, w, hrun, hend, -, -, -, htaken⟩ :=
    Collector.runCycle_of_denied .empty rfl rfl sampleCollector_polled sampleEvents_new
      deniedFate_accepts rfl
  let t : Turn := ⟨sampleCollector, deniedFate, w.offers, cycle.progress⟩
  have hreached : reached.turns = [] ++ [t] := by
    simp [reached, Lifetime.afterAll, Lifetime.after, hrun, t]
  have htook : t.taken ≠ [] := htaken
  have hlast : Lifetime.lastDelivery? reached.turns = some t := by
    rw [hreached, Lifetime.lastDelivery?_concat, if_neg htook]
  have hfailed : ¬ t.Completed := by
    rintro ⟨summary, hok⟩
    cases hend.symm.trans hok
  obtain ⟨hholds, -⟩ := store_holds_mark_of_completed_delivery [deniedFate] hbuilt t hlast
  exact ⟨hbuilt, t, hlast, hfailed, fun hheld => hfailed (hholds.1 hheld)⟩

/-- A cycle whose poll gives nothing ends well and leaves mark and store as they are. -/
theorem Collector.runCycle_of_nothing_new {c : Collector} {f : Fate} {since : Instant}
    (store : Marks) (henabled : c.settings.enabled = true) (hs : c.pollSince f.now = some since)
    (hp : c.polled f since = .ok []) :
    ∃ cycle w, (c.runCycle f.surroundings f.now).run ⟨store, []⟩ = (some cycle, w) ∧
      (∃ summary, cycle.progress = .ended (.ok summary)) ∧ cycle.collector.mark = c.mark ∧
      w.store = store := by
  obtain ⟨cycle, w, hrun, hcourse⟩ := c.runCycle_course f store henabled hs
  have hnone := Collector.payload?_of_nothing_new hs hp
  refine ⟨cycle, w, hrun, ?_⟩
  cases hcourse with
  | nothingNew hpolled => exact ⟨⟨_, rfl⟩, rfl, rfl⟩
  | sourceFails hpolled => simp [hp] at hpolled
  | sinkRefuses hpayload => simp [hnone] at hpayload
  | saveFails hpayload => simp [hnone] at hpayload
  | saved _ hpayload => simp [hnone] at hpayload

/-- A cycle that finds nothing ends well, and leaves a store behind that has denied the save before
it. -/
theorem quiet_cycle_leaves_store_behind :
    let reached := Lifetime.afterAll .epoch ⟨sampleCollector, .empty, []⟩
      [.cycle deniedFate, .cycle (.smooth [])]
    sampleCollector.settings.enabled = true ∧ (∃ t ∈ reached.turns, t.taken ≠ []) ∧
      (∃ t ∈ reached.turns.getLast?, t.Completed) ∧
      reached.store.get? "primary" ≠ some reached.collector.mark.value := by
  intro reached
  obtain ⟨cycle, w, hrun, -, hsettings, -, hstore, htaken⟩ :=
    Collector.runCycle_of_denied .empty rfl rfl sampleCollector_polled sampleEvents_new
      deniedFate_accepts rfl
  have hs : cycle.collector.pollSince (Fate.smooth []).now =
      some cycle.collector.mark.value := by
    simp only [Collector.pollSince, hsettings]
    rfl
  have hp : cycle.collector.polled (.smooth []) cycle.collector.mark.value = .ok [] := by
    simp [Collector.polled, Fate.smooth, Source.Replay.serve, Except.map, Source.oldestSince,
      Source.sortedSince, Source.distinctSince, Source.firstOfEach]
  obtain ⟨quiet, w', hquiet, hended, -, hstore'⟩ :=
    Collector.runCycle_of_nothing_new w.store (by rw [hsettings]; rfl) hs hp
  have hreached : reached = ⟨quiet.collector, w'.store,
      [⟨sampleCollector, deniedFate, w.offers, cycle.progress⟩,
        ⟨cycle.collector, .smooth [], w'.offers, quiet.progress⟩]⟩ := by
    simp [reached, Lifetime.afterAll, Lifetime.after, hrun, hquiet]
  rw [hreached, hstore', hstore]
  exact ⟨rfl, ⟨_, List.mem_cons_self, htaken⟩, ⟨_, rfl, hended⟩, (Option.some_ne_none _).symm⟩

end DeadlockCapture.Collection
