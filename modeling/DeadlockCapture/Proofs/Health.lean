import DeadlockCapture.Proofs.Saving

/-!
What the status of a collector tells of its cycles. After any run it shows the collector at rest
with its mark, and its counts, its error and its summary are those of the cycles so far. The summary
of a cycle accounts for every event of its poll. A disabled collector asks nobody and stays as it
is.
-/

namespace DeadlockCapture.Collection

open Report (Event Row)
open Source (distinctSince)
open Storage (Marks)
open Time (Instant)

/-- How a cycle has ended. -/
abbrev Ending := Except Failure Summary

namespace Ending

def failure? : Ending → Option Failure
  | .error x => some x
  | .ok _ => none

/-- The summary of a cycle that was neither skipped nor failed. -/
def summary? : Ending → Option Summary
  | .error _ => none
  | .ok s => if s.skipped then none else some s

def isSkipped : Ending → Bool
  | .error _ => false
  | .ok s => s.skipped

/-- The failures after the last cycle that did not fail. -/
def failuresAtEnd (endings : List Ending) : Nat :=
  (endings.reverse.takeWhile (·.failure?.isSome)).length

def lastFailure? (endings : List Ending) : Option Failure :=
  endings.reverse.findSome? failure?

def lastSummary? (endings : List Ending) : Option Summary :=
  endings.reverse.findSome? summary?

theorem failuresAtEnd_error (endings : List Ending) (x : Failure) :
    failuresAtEnd (endings ++ [.error x]) = failuresAtEnd endings + 1 := by
  simp [failuresAtEnd, failure?]

theorem failuresAtEnd_ok (endings : List Ending) (s : Summary) :
    failuresAtEnd (endings ++ [.ok s]) = 0 := by
  simp [failuresAtEnd, failure?]

theorem lastFailure?_error (endings : List Ending) (x : Failure) :
    lastFailure? (endings ++ [.error x]) = some x := by
  simp [lastFailure?, List.findSome?_cons, failure?]

theorem lastSummary?_concat (endings : List Ending) (e : Ending) :
    lastSummary? (endings ++ [e]) = e.summary?.or (lastSummary? endings) := by
  cases h : e.summary? <;> simp [lastSummary?, h]

/-- The failures at the end were cycles. -/
theorem failuresAtEnd_le (endings : List Ending) :
    failuresAtEnd endings ≤ endings.countP (!·.isSkipped) := by
  have hall : ∀ e ∈ endings.reverse.takeWhile (·.failure?.isSome), (!e.isSkipped) = true := by
    intro e he
    have hfailed := List.all_eq_true.1 List.all_takeWhile e he
    cases e with
    | error x => rfl
    | ok s => simp [failure?] at hfailed
  have hcount := List.countP_eq_length.2 hall
  rw [failuresAtEnd, ← hcount, ← List.countP_reverse (l := endings)]
  exact (List.takeWhile_sublist _).countP_le

end Ending

/-- The status that the endings of cycles leave. -/
def Status.ofEndings (instanceName : String) (mark : Instant) (endings : List Ending) : Status where
  instanceName
  mark
  cycles := endings.countP (!·.isSkipped)
  consecutiveFailures := Ending.failuresAtEnd endings
  lastSummary := Ending.lastSummary? endings
  lastError :=
    if Ending.failuresAtEnd endings = 0 then none
    else (Ending.lastFailure? endings).map Failure.message

namespace Status

variable {name : String} {mark : Instant} {endings : List Ending}

theorem ofEndings_failed (x : Failure) (moved : Instant) :
    (ofEndings name mark endings).begin.failed x.message moved =
      ofEndings name moved (endings ++ [.error x]) := by
  simp [ofEndings, begin, failed, Ending.failuresAtEnd_error, Ending.lastFailure?_error,
    Ending.lastSummary?_concat, Ending.summary?, Ending.isSkipped]

theorem ofEndings_succeeded {s : Summary} (hran : s.skipped = false) :
    (ofEndings name mark endings).begin.succeeded s =
      ofEndings name s.mark (endings ++ [.ok s]) := by
  simp [ofEndings, begin, succeeded, Ending.failuresAtEnd_ok, Ending.lastSummary?_concat,
    Ending.summary?, Ending.isSkipped, hran]

/-- A cycle that is skipped leaves no trace where none has failed. -/
theorem ofEndings_skipped {s : Summary} (hskipped : s.skipped = true)
    (hnone : Ending.failuresAtEnd endings = 0) :
    ofEndings name mark (endings ++ [.ok s]) = ofEndings name mark endings := by
  simp [ofEndings, Ending.failuresAtEnd_ok, Ending.lastSummary?_concat, Ending.summary?,
    Ending.isSkipped, hskipped, hnone]

end Status

/-- The events of a cycle's poll are handed out or deferred, and some are handed out if there are
any. -/
structure Summary.Balanced (s : Summary) : Prop where
  polled : s.polled = s.emitted + s.deferred
  emitted : s.emitted = 0 ↔ s.polled = 0
  parseErrors : s.parseErrors ≤ s.emitted

theorem Collector.balanced_assembledSummary (c : Collector) (f : Fate) (since : Instant)
    (events : List Event) : (c.assembledSummary f since events).Balanced := by
  obtain ⟨taken, left, rfl, h⟩ :=
    Report.assemble_accounts c.settings.assembler c.settings.maxPayloadBytes events
  have hemitted : (c.assembled (taken ++ left)).rows.length = taken.length := by
    rw [Collector.assembled, h.rows, List.length_map]
  have hdeferred : (c.assembled (taken ++ left)).deferred = left.length := h.deferred
  have herrors : (c.assembled (taken ++ left)).parseErrors =
      (c.assembled (taken ++ left)).rows.countP Report.Row.isError := h.parseErrors
  refine ⟨?_, ?_, ?_⟩
  · simp only [Collector.assembledSummary, hemitted, hdeferred, List.length_append]
  · simp only [Collector.assembledSummary, hemitted, List.length_eq_zero_iff,
      List.append_eq_nil_iff]
    refine ⟨fun htaken => ⟨htaken, ?_⟩, And.left⟩
    by_contra hleft
    exact h.started hleft htaken
  · simp only [Collector.assembledSummary, herrors]
    exact List.countP_le_length

/-- How a cycle of an enabled collector has ended, and what its status tells of it. -/
inductive Told (before : Status) (after : Collector) : Ending → Prop where
  | failed {x : Failure} (hstatus : after.status = before.begin.failed x.message after.mark.value) :
      Told before after (.error x)
  | succeeded {s : Summary} (hstatus : after.status = before.begin.succeeded s)
      (hmark : s.mark = after.mark.value) (hran : s.skipped = false) (hbalanced : s.Balanced) :
      Told before after (.ok s)

theorem Course.told {c : Collector} {f : Fate} {store : Marks} {since : Instant} {cycle : Cycle}
    {w : World} (h : Course c f store since cycle w) :
    ∃ ending, cycle.progress = .ended ending ∧ Told c.status cycle.collector ending := by
  cases h with
  | sourceFails => exact ⟨_, rfl, .failed rfl⟩
  | nothingNew => exact ⟨_, rfl, .succeeded rfl rfl rfl ⟨rfl, Iff.rfl, le_refl 0⟩⟩
  | sinkRefuses => exact ⟨_, rfl, .failed rfl⟩
  | saveFails => exact ⟨_, rfl, .failed rfl⟩
  | @saved p row events =>
      have hbalanced := c.balanced_assembledSummary f since events
      exact ⟨_, rfl, .succeeded rfl rfl rfl
        ⟨hbalanced.polled, hbalanced.emitted, hbalanced.parseErrors⟩⟩

def Progress.ending? : Progress → Option Ending
  | .waits _ => none
  | .ended ending => some ending

namespace Lifetime

/-- How the cycles of a lifetime have ended, one after the other. -/
def endings (l : Lifetime) : List Ending :=
  l.turns.filterMap (·.progress.ending?)

/-- The settings are the first ones, the status is the one that the endings leave, and the last
summary is that of the mark as it stands. A disabled collector has no failures. -/
structure Told (settings : Settings) (l : Lifetime) : Prop where
  kept : l.collector.settings = settings
  status : l.collector.status =
    .ofEndings settings.instanceName l.collector.mark.value l.endings
  quiet : settings.enabled = false → Ending.failuresAtEnd l.endings = 0
  last : ∀ s, l.endings.getLast? = some (.ok s) → s.skipped = false →
    s.mark = l.collector.mark.value ∧ s.Balanced

variable {settings : Settings} {start : Instant} {l : Lifetime}

theorem endings_concat {after : Collector} {store : Marks} {t : Turn} {ending : Ending}
    (h : t.progress = .ended ending) :
    endings ⟨after, store, l.turns ++ [t]⟩ = l.endings ++ [ending] := by
  simp [endings, h, Progress.ending?]

theorem Told.turn (h : l.Told settings) {after : Collector} {store : Marks} {t : Turn}
    {ending : Ending} (ht : t.progress = .ended ending)
    (hsettings : after.settings = l.collector.settings)
    (htold : Collection.Told l.collector.status after ending) (henabled : settings.enabled = true) :
    Told settings ⟨after, store, l.turns ++ [t]⟩ := by
  refine ⟨hsettings.trans h.kept, ?_, fun hdisabled => ?_, ?_⟩
  · rw [endings_concat ht]
    cases htold with
    | failed hstatus => rw [hstatus, h.status, Status.ofEndings_failed]
    | succeeded hstatus hmark hran => rw [hstatus, h.status, Status.ofEndings_succeeded hran, hmark]
  · rw [henabled] at hdisabled
    cases hdisabled
  · intro s hlast hran
    rw [endings_concat ht, List.getLast?_concat, Option.some.injEq] at hlast
    subst hlast
    cases htold with
    | succeeded hstatus hmark hran hbalanced => exact ⟨hmark, hbalanced⟩

theorem Told.skip (h : l.Told settings) (hdisabled : settings.enabled = false) {t : Turn}
    {s : Summary} (ht : t.progress = .ended (.ok s)) (hskipped : s.skipped = true) :
    Told settings ⟨l.collector, l.store, l.turns ++ [t]⟩ := by
  refine ⟨h.kept, ?_, fun _ => ?_, ?_⟩
  · rw [endings_concat ht, Status.ofEndings_skipped hskipped (h.quiet hdisabled)]
    exact h.status
  · rw [endings_concat ht, Ending.failuresAtEnd_ok]
  · intro s' hlast hran
    rw [endings_concat ht, List.getLast?_concat] at hlast
    obtain rfl : s = s' := by simpa using hlast
    rw [hskipped] at hran
    cases hran

theorem Told.after (h : l.Told settings) (f : Fate) : (l.after start (.cycle f)).Told settings := by
  rcases hrun : (l.collector.runCycle f.surroundings f.now).run ⟨l.store, []⟩ with ⟨_ | cycle, w⟩
  · simp only [Lifetime.after, hrun]
    exact h
  · simp only [Lifetime.after, hrun]
    cases henabled : settings.enabled with
    | false =>
        rw [Collector.runCycle_of_disabled (h.kept ▸ henabled)] at hrun
        cases hrun
        exact h.skip henabled rfl rfl
    | true =>
        rcases Collector.runCycle_cases hrun with ⟨hdisabled, -, -⟩ | ⟨since, hs, hcourse⟩
        · rw [h.kept, henabled] at hdisabled
          cases hdisabled
        · obtain ⟨ending, hend, htold⟩ := hcourse.told
          exact h.turn hend hcourse.settings_eq htold henabled

theorem Told.afterAll (h : l.Told settings) (fates : List Fate) :
    (l.afterAll start (fates.map .cycle)).Told settings := by
  induction fates generalizing l with
  | nil => exact h
  | cons f r ih => exact ih (h.after f)

/-- A new collector's status is the one that no cycle leaves. -/
theorem told_new (settings : Settings) (saved : Option Instant) (store : Marks) :
    Told settings ⟨.new settings saved start, store, []⟩ where
  kept := rfl
  status := rfl
  quiet _ := rfl
  last _ h := by cases h

end Lifetime

/-- After any number of calls that have all returned, whatever has failed in them: the collector is
at rest, its status shows its mark, and its counts, its error and its summary are those of the
calls. Neither count exceeds the number of calls. The summary of the last call, if that ran and did
not fail, accounts for its poll and shows the mark. A disabled collector answers a call without
asking its surroundings for anything, and stays as it is. -/
theorem status_follows_run (settings : Settings) (saved : Option Instant) (start : Instant)
    (store : Marks) (fates : List Fate)
    (hreturned : (Lifetime.afterAll start ⟨.new settings saved start, store, []⟩
      (fates.map .cycle)).endings.length = fates.length) :
    let reached := Lifetime.afterAll start ⟨.new settings saved start, store, []⟩
      (fates.map .cycle)
    let status := reached.collector.status
    status.instanceName = settings.instanceName ∧ status.activity = .idle ∧
      status.mark = reached.collector.mark.value ∧
      status.cycles = reached.endings.countP (!·.isSkipped) ∧
      status.consecutiveFailures = Ending.failuresAtEnd reached.endings ∧
      status.lastError = (if status.consecutiveFailures = 0 then none
        else (Ending.lastFailure? reached.endings).map Failure.message) ∧
      status.lastSummary = Ending.lastSummary? reached.endings ∧
      status.consecutiveFailures ≤ status.cycles ∧ status.cycles ≤ fates.length ∧
      (∀ s, reached.endings.getLast? = some (.ok s) → s.skipped = false →
        s.mark = reached.collector.mark.value ∧ s.polled = s.emitted + s.deferred ∧
          (s.emitted = 0 ↔ s.polled = 0) ∧ s.parseErrors ≤ s.emitted) ∧
      (settings.enabled = false → ∀ {m : Type → Type} [Monad m] [LawfulMonad m]
        (s : Surroundings m) (now : Instant), reached.collector.runCycle s now =
          pure (some ⟨reached.collector, .ended (.ok (reached.collector.skippedSummary now)),
            [.skippedCycle]⟩)) := by
  intro reached status
  have htold : reached.Told settings := (Lifetime.told_new settings saved store).afterAll fates
  have hstatus : status = .ofEndings settings.instanceName reached.collector.mark.value
    reached.endings := htold.status
  rw [hstatus]
  refine ⟨rfl, rfl, rfl, rfl, rfl, rfl, rfl, Ending.failuresAtEnd_le _, ?_, ?_, ?_⟩
  · exact hreturned ▸ List.countP_le_length
  · intro s hlast hran
    obtain ⟨hmark, hbalanced⟩ := htold.last s hlast hran
    exact ⟨hmark, hbalanced.polled, hbalanced.emitted, hbalanced.parseErrors⟩
  · intro hdisabled m _ _ s now
    exact Collector.runCycle_disabled s now (by rw [htold.kept, hdisabled])

/-- Without a bound on looking back every call returns. -/
theorem Lifetime.length_endings_afterAll {start : Instant} {l : Lifetime}
    (hlookback : l.collector.settings.lookback = none) (fates : List Fate) :
    (l.afterAll start (fates.map .cycle)).endings.length = l.endings.length + fates.length := by
  induction fates generalizing l with
  | nil => rfl
  | cons f r ih =>
      obtain ⟨cycle, w, hrun, hsettings⟩ : ∃ cycle w,
          (l.collector.runCycle f.surroundings f.now).run ⟨l.store, []⟩ = (some cycle, w) ∧
            cycle.collector.settings = l.collector.settings := by
        cases henabled : l.collector.settings.enabled with
        | false => exact ⟨_, _, Collector.runCycle_of_disabled henabled, rfl⟩
        | true =>
            have hs : l.collector.pollSince f.now = some l.collector.mark.value := by
              simp [Collector.pollSince, hlookback]
            obtain ⟨cycle, w, hrun, hcourse⟩ := l.collector.runCycle_course f l.store henabled hs
            exact ⟨cycle, w, hrun, hcourse.settings_eq⟩
      obtain ⟨ending, hend⟩ := Collector.ended_of_runCycle hrun
      have hafter : l.after start (.cycle f) = ⟨cycle.collector, w.store,
          l.turns ++ [⟨l.collector, f, w.offers, cycle.progress⟩]⟩ := by
        simp only [Lifetime.after, hrun]
      have hrest := ih (l := l.after start (.cycle f)) (by rw [hafter, hsettings, hlookback])
      rw [List.map_cons, Lifetime.afterAll, List.foldl_cons, ← Lifetime.afterAll, hrest, hafter,
        Lifetime.endings_concat hend, List.length_append, List.length_singleton, List.length_cons]
      omega

/-- A run with a failing source, a failing save and a refusing sink. -/
theorem sample_status_follows_run :
    let reached := Lifetime.afterAll .epoch ⟨sampleCollector, .empty, []⟩ (sampleFates.map .cycle)
    reached.endings.length = 4 ∧ reached.collector.status.activity = .idle ∧
      reached.collector.status.mark = reached.collector.mark.value ∧
      reached.collector.status.cycles = reached.endings.countP (!·.isSkipped) ∧
      reached.collector.status.consecutiveFailures = Ending.failuresAtEnd reached.endings ∧
      reached.collector.status.consecutiveFailures ≤ 4 := by
  intro reached
  have hreturned : reached.endings.length = sampleFates.length := by
    rw [Lifetime.length_endings_afterAll rfl, Lifetime.endings, List.filterMap_nil, List.length_nil,
      Nat.zero_add]
  obtain ⟨-, hidle, hmark, hcycles, hfailures, -, -, hle, hcount, -, -⟩ :=
    status_follows_run sampleCollector.settings none .epoch .empty sampleFates hreturned
  exact ⟨hreturned, hidle, hmark, hcycles, hfailures, hle.trans hcount⟩

end DeadlockCapture.Collection
