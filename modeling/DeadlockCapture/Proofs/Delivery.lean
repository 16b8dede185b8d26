import DeadlockCapture.Proofs.Cycle
import DeadlockCapture.Source.Replay

/-!
Delivery over whole runs. A collector that polls a fixed capture delivers the row of every event
that the capture keeps after the first mark, once and in order, however its source, sinks and store
fail on the way.
-/

namespace DeadlockCapture.Collection

open Report (Event Row)
open Source (distinctSince lastTime oldestSince)
open Storage (Marks)
open Time (Instant)

/-- A collector, its store, and the rows that every sink has taken, in order. -/
structure History where
  collector : Collector
  store : Marks
  rows : List Row := []

/-- A history goes on with a cycle. Where the bound on looking back is no instant, it stays. -/
def History.after (h : History) (f : Fate) : History :=
  match (h.collector.runCycle f.surroundings f.now).run ⟨h.store, []⟩ with
  | (none, _) => h
  | (some cycle, w) => ⟨cycle.collector, w.store, h.rows ++ h.collector.takenRows f w.offers⟩

/-- A history goes on with several cycles. -/
def History.afterAll (h : History) (fates : List Fate) : History :=
  fates.foldl History.after h

/-- The source plays back the events of a capture, or it fails. -/
def Fate.Replays (f : Fate) (events : List Event) : Prop :=
  ∀ since limit, f.source since limit = Source.Replay.serve (.ok events) since limit ∨
    ∃ x, f.source since limit = .error x

/-- A poll of a capture gives the first events that it keeps, at least one if there is one. -/
theorem Fate.Replays.polled {f : Fate} {events found : List Event} {c : Collector}
    {since : Instant} (hf : f.Replays events) (hp : c.polled f since = .ok found) :
    found <+: distinctSince since events ∧ (distinctSince since events ≠ [] → found ≠ []) := by
  unfold Collector.polled at hp
  rcases hf since c.settings.poller.maxRows with hserve | ⟨x, hx⟩
  · simp only [hserve, Source.Replay.serve, Except.map, Except.ok.injEq] at hp
    subst hp
    refine ⟨Source.capped_poll_prefix _ _ _, fun hne hnil => hne ?_⟩
    exact (Source.capped_poll_eq_nil c.settings.poller.maxRows_pos).1 hnil
  · simp [hx, Except.map] at hp

/-- The source answers the poll of a collector without a bound on looking back. -/
def Fate.Answers (f : Fate) (c : Collector) : Prop :=
  ∃ found, f.source c.mark.value c.settings.poller.maxRows = .ok found

def Fate.Accepts (f : Fate) (c : Collector) : Prop :=
  ∀ place < c.settings.sinks.length, f.sink place = none

/-- How far a collector has come: what the capture keeps after the first mark is what has been
delivered and what is left, and the mark stands between the two. -/
structure Delivered (c : Collector) (events : List Event) (h : History) (front back : List Event) :
    Prop where
  settings : h.collector.settings = c.settings
  split : distinctSince c.mark.value events = front ++ back
  rows : h.rows = front.map c.settings.assembler.buildRow
  mark : h.collector.mark.value = lastTime c.mark.value front

section Step

variable {c : Collector} {events front back : List Event} {h : History} {f : Fate}

/-- A poll of a capture gives the first events of what is left, at least one if there is one. -/
theorem polled_of_replays (hd : Delivered c events h front back) (hf : f.Replays events)
    {found : List Event} (hp : h.collector.polled f h.collector.mark.value = .ok found) :
    found <+: back ∧ (back ≠ [] → found ≠ []) := by
  have hrest : distinctSince h.collector.mark.value events = back := by
    rw [hd.mark]
    exact Source.distinctSince_lastTime hd.split
  rw [← hrest]
  exact hf.polled hp

/-- One cycle delivers the first events of what is left: at least one if there is one, the source
answers and no sink refuses. -/
theorem Delivered.after (hd : Delivered c events h front back)
    (henabled : c.settings.enabled = true) (hlookback : c.settings.lookback = none)
    (hf : f.Replays events) :
    ∃ more rest, back = more ++ rest ∧ Delivered c events (h.after f) (front ++ more) rest ∧
      (f.Answers h.collector → f.Accepts h.collector → back ≠ [] → more ≠ []) := by
  have hsince : h.collector.pollSince f.now = some h.collector.mark.value := by
    simp [Collector.pollSince, hd.settings, hlookback]
  have hen : h.collector.settings.enabled = true := by rw [hd.settings, henabled]
  obtain ⟨cycle, w, hrun, hcourse⟩ := Collector.runCycle_course f h.store hen hsince
  have hafter : h.after f =
      ⟨cycle.collector, w.store, h.rows ++ h.collector.takenRows f w.offers⟩ := by
    rw [History.after, hrun]
  have hsettings : cycle.collector.settings = c.settings := hcourse.settings_eq.trans hd.settings
  rcases hcourse.effect hsince with
    ⟨hrows, hmark, -, hreason⟩ | ⟨more, later, hp, hne, hrows, hmark⟩
  · refine ⟨[], back, rfl, ⟨?_, ?_, ?_, ?_⟩, ?_⟩
    · rw [hafter]
      exact hsettings
    · simpa using hd.split
    · rw [hafter, hrows, List.append_nil, List.append_nil]
      exact hd.rows
    · rw [hafter, List.append_nil, hmark]
      exact hd.mark
    · rintro ⟨found, hfound⟩ haccepts hback
      have hp : h.collector.polled f h.collector.mark.value =
          .ok (distinctSince h.collector.mark.value found) := by
        simp [Collector.polled, hfound, Except.map]
      have hnone : f.refusalFrom 0 h.collector.settings.sinks = none :=
        refusalFrom_eq_none fun i hi => haccepts i (by omega)
      exact absurd (hreason hnone _ hp) ((polled_of_replays hd hf hp).2 hback)
  · obtain ⟨hfirst, -⟩ := polled_of_replays hd hf hp
    obtain ⟨rest, rfl⟩ := (List.prefix_append more later).trans hfirst
    refine ⟨more, rest, rfl, ⟨?_, ?_, ?_, ?_⟩, fun _ _ _ => hne⟩
    · rw [hafter]
      exact hsettings
    · rw [hd.split, List.append_assoc]
    · rw [hafter, hrows, hd.rows, hd.settings, List.map_append]
    · rw [hafter, hmark, Source.lastTime_append, ← hd.mark]

theorem Delivered.afterAll {fates : List Fate} (hd : Delivered c events h front back)
    (henabled : c.settings.enabled = true) (hlookback : c.settings.lookback = none)
    (hf : ∀ f ∈ fates, f.Replays events) :
    ∃ more rest, back = more ++ rest ∧
      Delivered c events (h.afterAll fates) (front ++ more) rest := by
  induction fates generalizing h front back with
  | nil => exact ⟨[], back, rfl, by simpa [History.afterAll] using hd⟩
  | cons f r ih =>
      obtain ⟨first, middle, rfl, hfirst, -⟩ :=
        hd.after henabled hlookback (hf f List.mem_cons_self)
      obtain ⟨more, rest, rfl, hrest⟩ := ih hfirst fun g hg => hf g (List.mem_cons_of_mem f hg)
      exact ⟨first ++ more, rest, by simp, by simpa [History.afterAll] using hrest⟩

end Step

theorem delivered_start (c : Collector) (store : Marks) (events : List Event) :
    Delivered c events ⟨c, store, []⟩ [] (distinctSince c.mark.value events) :=
  ⟨rfl, rfl, rfl, rfl⟩

/-- Every run delivers the rows of the first `k` events that the capture keeps after the first mark,
in order, and leaves the mark at the last of them. A further cycle in which the source answers and
no sink refuses delivers more, as long as there is more. -/
theorem runs_deliver_each_event_once (c : Collector) (store : Marks) (events : List Event)
    (fates : List Fate) (henabled : c.settings.enabled = true)
    (hlookback : c.settings.lookback = none) (hfates : ∀ f ∈ fates, f.Replays events) :
    let kept := distinctSince c.mark.value events
    let reached := History.afterAll ⟨c, store, []⟩ fates
    ∃ k ≤ kept.length,
      reached.rows = (kept.take k).map c.settings.assembler.buildRow ∧
      reached.collector.mark.value = lastTime c.mark.value (kept.take k) ∧
      ∀ f : Fate, f.Replays events → f.Answers reached.collector → f.Accepts reached.collector →
        k < kept.length → ∃ l ≤ kept.length, k < l ∧
          (reached.after f).rows = (kept.take l).map c.settings.assembler.buildRow ∧
          (reached.after f).collector.mark.value = lastTime c.mark.value (kept.take l) := by
  intro kept reached
  obtain ⟨front, back, hsplit, hd⟩ :=
    (delivered_start c store events).afterAll henabled hlookback hfates
  have hkept : kept = front ++ back := hsplit
  have hfront : kept.take front.length = front := by rw [hkept, List.take_left]
  refine ⟨front.length, ?_, ?_, ?_, ?_⟩
  · rw [hkept, List.length_append]
    omega
  · rw [hfront]
    exact hd.rows
  · rw [hfront]
    exact hd.mark
  · intro f hf hanswers haccepts hk
    obtain ⟨more, rest, rfl, hnext, hmore⟩ := hd.after henabled hlookback hf
    have hback : more ++ rest ≠ [] := by
      rintro hnil
      rw [hkept, hnil, List.append_nil] at hk
      exact Nat.lt_irrefl _ hk
    have hne := hmore hanswers haccepts hback
    have htake : kept.take (front ++ more).length = front ++ more := by
      rw [hkept, ← List.append_assoc, List.take_left]
    refine ⟨(front ++ more).length, ?_, ?_, ?_, ?_⟩
    · rw [hkept]
      simp only [List.length_append]
      omega
    · have := List.length_pos_of_ne_nil hne
      rw [List.length_append]
      omega
    · rw [htake]
      exact hnext.rows
    · rw [htake]
      exact hnext.mark

section Sample

def Fate.smooth (events : List Event) : Fate where
  now := .epoch
  stamp := 0
  source := Source.Replay.serve (.ok events)
  sink _ := none
  save := none

def sampleTime (second : Int) : Instant :=
  (Instant.of? second 0).getD .epoch

def sampleEvents : List Event :=
  [⟨sampleTime 9, "late"⟩, ⟨sampleTime 1, "early"⟩, ⟨sampleTime 9, "late again"⟩,
    ⟨sampleTime 5, ""⟩]

/-- A source that fails, a save that fails and a second sink that refuses, between smooth cycles. -/
def sampleFates : List Fate :=
  [{ Fate.smooth sampleEvents with source := fun _ _ => .error (.connection "refused") },
    { Fate.smooth sampleEvents with save := some .corrupt },
    Fate.smooth sampleEvents,
    { Fate.smooth sampleEvents with
      sink := fun place => if place = 1 then some .channelFull else none }]

def sampleCollector : Collector :=
  .new
    { instanceName := "primary"
      host := "db-1"
      maxPayloadBytes := 1
      poller := { maxRows := 2, maxRows_pos := Nat.two_pos }
      sinks := [.channel 0, .channel 1] }
    none .epoch

theorem smooth_replays (events : List Event) : (Fate.smooth events).Replays events :=
  fun _ _ => .inl rfl

theorem sampleFates_replay : ∀ f ∈ sampleFates, f.Replays sampleEvents := by
  intro f hf
  simp only [sampleFates, List.mem_cons, List.not_mem_nil, or_false] at hf
  rcases hf with rfl | rfl | rfl | rfl
  · exact fun _ _ => .inr ⟨_, rfl⟩
  · exact smooth_replays sampleEvents
  · exact smooth_replays sampleEvents
  · exact smooth_replays sampleEvents

theorem sample_run_delivers_each_event_once :
    let kept := distinctSince .epoch sampleEvents
    let reached := History.afterAll ⟨sampleCollector, .empty, []⟩ sampleFates
    let next := reached.after (Fate.smooth sampleEvents)
    sampleCollector.settings.enabled = true ∧ sampleCollector.settings.lookback = none ∧
      (∀ f ∈ sampleFates, f.Replays sampleEvents) ∧
      ∃ k ≤ kept.length,
        reached.rows = (kept.take k).map sampleCollector.settings.assembler.buildRow ∧
        reached.collector.mark.value = lastTime .epoch (kept.take k) ∧
        (k < kept.length → ∃ l ≤ kept.length, k < l ∧
          next.rows = (kept.take l).map sampleCollector.settings.assembler.buildRow) := by
  refine ⟨rfl, rfl, sampleFates_replay, ?_⟩
  obtain ⟨k, hk, hrows, hmark, hnext⟩ :=
    runs_deliver_each_event_once sampleCollector .empty sampleEvents sampleFates rfl rfl
      sampleFates_replay
  refine ⟨k, hk, hrows, hmark, fun hlt => ?_⟩
  obtain ⟨l, hl, hkl, hrowsNext, -⟩ :=
    hnext _ (smooth_replays sampleEvents) ⟨_, rfl⟩ (fun _ _ => rfl) hlt
  exact ⟨l, hl, hkl, hrowsNext⟩

end Sample

end DeadlockCapture.Collection
