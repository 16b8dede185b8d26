import DeadlockCapture.Proofs.Saving
import DeadlockCapture.Rehearsal.Background

/-!
Stopping work in the background. The work is a run of cycles, each seen from one wait to the next,
and it may be stopped at any of the waits; the cycle under way is then given up. It is given up
either with the mark from before it, or with its payload taken by every sink and the mark at the
last row, so nothing up to the mark is lost.
-/

namespace DeadlockCapture.Collection

open Report (Event)
open Source (distinctSince)
open Storage (Marks)
open Time (Instant)

/-- A collector between two cycles: it is idle, and its status shows its mark. -/
structure Collector.Settled (c : Collector) : Prop where
  idle : c.status.activity = .idle
  shown : c.status.mark = c.mark.value

theorem Collector.settled_abandon (c : Collector) : c.abandon.Settled :=
  ⟨rfl, rfl⟩

theorem Course.settled {c : Collector} {f : Fate} {store : Marks} {since : Instant} {cycle : Cycle}
    {w : World} (h : Course c f store since cycle w) : cycle.collector.Settled := by
  cases h <;> exact ⟨rfl, rfl⟩

namespace Pause

variable {c : Collector} {f : Fate} {store : Marks} {since : Instant} {n : Nat} {cycle : Cycle}
  {w : World}

theorem waits (h : Pause c f store since n cycle w) : ∃ on, cycle.progress = .waits on := by
  cases h <;> exact ⟨_, rfl⟩

theorem settings_eq (h : Pause c f store since n cycle w) :
    cycle.collector.settings = c.settings := by
  cases h <;> rfl

/-- A cycle that is given up leaves the status as it was, but for the mark. -/
theorem status_abandon (h : Pause c f store since n cycle w) (hc : c.Settled) :
    cycle.collector.abandon.status = { c.status with mark := cycle.collector.mark.value } := by
  have hidle := hc.idle
  cases h <;> simp [Collector.abandon, Collector.begun, Collector.markedAt, Status.abandoned,
    Status.begin, hidle]

/-- The mark of a cycle that waits is the one from before it, or every sink has taken the payload
and the mark stands at its last row. -/
theorem mark_cases (h : Pause c f store since n cycle w) :
    cycle.collector.mark = c.mark ∨ ∃ p last, c.payload? f = some p ∧
      w.offers = c.settings.sinks.map (⟨·, p, none⟩) ∧ p.rows.getLast? = some last ∧
      cycle.collector.mark = ⟨c.mark.instanceName, last.time⟩ := by
  cases h with
  | source => exact .inl rfl
  | sinks => exact .inl rfl
  | checkpoint hpolled hpayload haccepted hlast hlater =>
      exact .inr ⟨_, _, hpayload, offersFrom_of_accepted haccepted, hlast, rfl⟩

theorem mark_of_source {summary : Summary} (h : Pause c f store since n cycle w)
    (hsource : cycle.progress = .waits (.source summary)) : cycle.collector.mark = c.mark := by
  cases h with
  | source => rfl
  | sinks => rfl
  | checkpoint => cases hsource

/-- What a capture keeps between the mark from before the cycle and the one by now is taken. -/
theorem mem_taken (h : Pause c f store c.mark.value n cycle w)
    (hs : c.pollSince f.now = some c.mark.value) {events : List Event} (hf : f.Replays events)
    {e : Event} (he : e ∈ distinctSince c.mark.value events)
    (hle : e.time ≤ cycle.collector.mark.value) :
    c.settings.assembler.buildRow e ∈ c.takenRows f w.offers := by
  have hafter : c.mark.value < e.time := (Source.mem_distinctSince.1 he).1
  cases h with
  | source => exact absurd hafter (not_lt.2 hle)
  | sinks => exact absurd hafter (not_lt.2 hle)
  | checkpoint hpolled hpayload haccepted hlast =>
      rw [Collector.takenRows_of_accepted hpayload haccepted]
      exact mem_rows_of_le hs hf hpayload hlast he hle

end Pause

end DeadlockCapture.Collection

namespace DeadlockCapture.Rehearsal

open Collection (Collector Course Cycle Failure Fate Pause Settings Summary World
  deniedFate deniedFate_accepts sampleCollector sampleCollector_polled sampleEvents sampleEvents_new
  smooth_replays)
open Report (Event Row)
open Source (distinctSince firstAt)
open Storage (Marks)
open Time (Instant)

/-- A cycle that waits: its flight, its fate, and what it has done by then. -/
structure Partway where
  flight : Flight
  fate : Fate
  world : World

/-- Work in the background: the collector and the store as they were before the cycle under way, and
the rows that every sink has taken before it. -/
structure Work where
  collector : Collector
  store : Marks
  tick : Nat := 0
  rows : List Row := []
  partway : Option Partway := none

/-- What happens to the work: a cycle is due at a time of the clock, and its source needs a while;
what the cycle waits for has answered; the work is stopped. -/
inductive Happening where
  | due (f : Fate) (clock delay : Nat)
  | answered
  | stopped

/-- The rows of a waiting cycle's payload if every sink has taken it by now. There is no payload
before the source has answered. -/
def Partway.taken (p : Partway) (c : Collector) : List Row :=
  match p.flight.cycle.progress with
  | .waits (.source _) => []
  | _ => c.takenRows p.fate p.world.offers

/-- The cycle goes on, up to the next wait or to its end. -/
def Partway.answered (p : Partway) : Partway :=
  let next := (p.flight.cycle.resume p.fate.surroundings).run p.world
  { p with flight := { p.flight with cycle := next.1 }, world := next.2 }

namespace Work

def background (w : Work) : Background :=
  ⟨w.collector, w.tick, w.partway.map Partway.flight⟩

/-- The rows that every sink has taken by now. -/
def taken (w : Work) : List Row :=
  match w.partway with
  | none => w.rows
  | some p => w.rows ++ p.taken w.collector

/-- A cycle waits, or it has ended and another may begin. -/
def proceed (w : Work) (p : Partway) : Work :=
  match p.flight.cycle.progress with
  | .waits _ => { w with partway := some p }
  | .ended _ =>
    { w with
      collector := p.flight.cycle.collector
      store := p.world.store
      rows := w.rows ++ w.collector.takenRows p.fate p.world.offers
      partway := none }

/-- The collector is taken back, and may be put to work again. -/
def stop (w : Work) : Work :=
  { w with
    collector := w.background.stop
    store := (w.partway.map (·.world.store)).getD w.store
    rows := w.taken
    partway := none }

/-- The work breaks off when the bound on looking back is no instant. -/
def after (w : Work) (h : Happening) : Option Work :=
  match h, w.partway with
  | .due f clock delay, none =>
    (w.collector.begin f.now).map fun cycle =>
      { w with tick := w.background.nextTick clock }.proceed
        ⟨⟨cycle, delay, clock + delay⟩, f, ⟨w.store, []⟩⟩
  | .answered, some p => some (w.proceed p.answered)
  | .stopped, _ => some w.stop
  | _, _ => some w

def afterAll (w : Work) (happenings : List Happening) : Option Work :=
  happenings.foldlM after w

end Work

/-- The happening is under a fate of a kind, if it brings one. -/
def Happening.Under (kind : Fate → Prop) : Happening → Prop
  | .due f _ _ => kind f
  | .answered | .stopped => True

/-- What one happening can make of the work: it stays as it is, a cycle waits, a cycle has ended, or
the work is stopped. -/
inductive Work.Goes (kind : Fate → Prop) (w : Work) : Work → Prop where
  | stays {tick : Nat} : Goes kind w { w with tick }
  | waits {p : Partway} {tick n : Nat} {since : Instant} (hunder : kind p.fate)
      (henabled : w.collector.settings.enabled = true)
      (hpolls : w.collector.pollSince p.fate.now = some since)
      (hpause : Pause w.collector p.fate w.store since n p.flight.cycle p.world) :
      Goes kind w { w with tick, partway := some p }
  | ends {f : Fate} {tick : Nat} {since : Instant} {cycle : Cycle} {world : World} (hunder : kind f)
      (hpolls : w.collector.pollSince f.now = some since)
      (hcourse : Course w.collector f w.store since cycle world) :
      Goes kind w
        { collector := cycle.collector
          store := world.store
          tick
          rows := w.rows ++ w.collector.takenRows f world.offers }
  | stopped : Goes kind w w.stop

/-- Between two cycles the collector is settled, and a cycle under way is at one of its pauses. -/
structure Work.Orderly (kind : Fate → Prop) (settings : Settings) (w : Work) : Prop where
  settings : w.collector.settings = settings
  settled : w.collector.Settled
  partway : ∀ p ∈ w.partway, kind p.fate ∧ w.collector.settings.enabled = true ∧
    ∃ since n, w.collector.pollSince p.fate.now = some since ∧
      Pause w.collector p.fate w.store since n p.flight.cycle p.world

namespace Work

variable {kind : Fate → Prop} {settings : Settings} {w next : Work} {p : Partway}

theorem proceed_of_waits {on : Collection.Waiting} (h : p.flight.cycle.progress = .waits on) :
    w.proceed p = { w with partway := some p } := by
  rw [proceed, h]

theorem proceed_of_ended {result : Except Failure Summary}
    (h : p.flight.cycle.progress = .ended result) :
    w.proceed p =
      { w with
        collector := p.flight.cycle.collector
        store := p.world.store
        rows := w.rows ++ w.collector.takenRows p.fate p.world.offers
        partway := none } := by
  rw [proceed, h]

theorem proceed_partway (w : Work) (q : Option Partway) :
    ({ w with partway := q } : Work).proceed p = w.proceed p := by
  unfold proceed
  split <;> rfl

/-- A cycle that is due begins, and waits for its source. -/
theorem after_due_of_polls {f : Fate} {since : Instant} (clock delay : Nat)
    (hidle : w.partway = none) (henabled : w.collector.settings.enabled = true)
    (hs : w.collector.pollSince f.now = some since) :
    w.after (.due f clock delay) =
      some
        { w with
          tick := w.background.nextTick clock
          partway := some
            ⟨⟨⟨w.collector.begun, .waits (.source (w.collector.openingSummary f since)), []⟩, delay,
              clock + delay⟩, f, ⟨w.store, []⟩⟩ } := by
  simp only [after, hidle, Collector.begin_of_polls henabled hs, Option.map_some]
  rw [proceed_of_waits rfl]

/-- A cycle that is due waits, or it is skipped, or another is under way. -/
theorem goes_of_due {f : Fate} (hf : kind f) {clock delay : Nat}
    (hnext : w.after (.due f clock delay) = some next) : w.Goes kind next := by
  cases hpartway : w.partway with
  | some p =>
      simp only [after, hpartway, Option.some.injEq] at hnext
      exact hnext ▸ .stays
  | none =>
      cases henabled : w.collector.settings.enabled with
      | false =>
          -- The cycle is skipped: only the time of the next one is new.
          have hnone := Collector.payload?_of_disabled f henabled
          simp only [after, hpartway, Collector.begin_of_disabled henabled, Option.map_some,
            Option.some.injEq] at hnext
          rw [← hnext, proceed_of_ended rfl]
          simp only [Collector.takenRows_of_no_payload hnone, List.append_nil, ← hpartway]
          exact .stays
      | true =>
          cases hs : w.collector.pollSince f.now with
          | none =>
              simp [after, hpartway, Collector.begin_of_out_of_range henabled hs] at hnext
          | some since =>
              rw [after_due_of_polls clock delay hpartway henabled hs, Option.some.injEq] at hnext
              exact hnext ▸ .waits hf henabled hs .source

/-- An answer takes the cycle under way to its next pause or to the end of a course. -/
theorem Orderly.answered (h : w.Orderly kind settings) (hnext : w.after .answered = some next) :
    w.Goes kind next := by
  cases hpartway : w.partway with
  | none =>
      simp only [after, hpartway, Option.some.injEq] at hnext
      exact hnext ▸ .stays
  | some p =>
      obtain ⟨hunder, henabled, since, n, hs, hpause⟩ := h.partway p hpartway
      simp only [after, hpartway, Option.some.injEq] at hnext
      subst hnext
      cases n with
      | zero => cases hpause
      | succ n =>
          rcases hpause.resume henabled hs with hpause | hcourse
          · obtain ⟨on, hon⟩ := hpause.waits
            rw [proceed_of_waits (p := p.answered) hon]
            exact .waits (p := p.answered) hunder henabled hs hpause
          · obtain ⟨result, hend⟩ := hcourse.ended
            rw [proceed_of_ended (p := p.answered) hend]
            exact .ends hunder hs hcourse

theorem Orderly.goes (h : w.Orderly kind settings) {happening : Happening}
    (hunder : happening.Under kind) (hnext : w.after happening = some next) :
    w.Goes kind next := by
  cases happening with
  | due f clock delay => exact goes_of_due hunder hnext
  | answered => exact h.answered hnext
  | stopped =>
      simp only [after, Option.some.injEq] at hnext
      exact hnext ▸ .stopped

theorem background_stop_of_idle (h : w.partway = none) : w.background.stop = w.collector := by
  simp only [background, h, Option.map_none, Background.stop]

theorem background_stop_of_partway (h : w.partway = some p) :
    w.background.stop = p.flight.cycle.collector.abandon := by
  simp only [background, h, Option.map_some, Background.stop]

/-- Stopped work gives back a settled collector, with the settings that it had. -/
theorem Orderly.stop (h : w.Orderly kind settings) :
    w.background.stop.settings = settings ∧ w.background.stop.Settled := by
  cases hpartway : w.partway with
  | none =>
      rw [background_stop_of_idle hpartway]
      exact ⟨h.settings, h.settled⟩
  | some p =>
      obtain ⟨-, -, since, n, -, hpause⟩ := h.partway p hpartway
      rw [background_stop_of_partway hpartway]
      exact ⟨hpause.settings_eq.trans h.settings, Collector.settled_abandon _⟩

/-- The collector that comes back has the mark from before the cycle under way, or that of the last
row of a payload that every sink has taken. -/
theorem Orderly.mark_stop (h : w.Orderly kind settings) :
    w.background.stop.mark = w.collector.mark ∨ ∃ p ∈ w.partway, ∃ payload last,
      w.collector.payload? p.fate = some payload ∧
      p.world.offers = settings.sinks.map (⟨·, payload, none⟩) ∧
      payload.rows.getLast? = some last ∧
      w.background.stop.mark = ⟨w.collector.mark.instanceName, last.time⟩ := by
  cases hpartway : w.partway with
  | none => exact .inl (congrArg Collector.mark (background_stop_of_idle hpartway))
  | some p =>
      obtain ⟨-, -, since, n, -, hpause⟩ := h.partway p hpartway
      rw [background_stop_of_partway hpartway, ← h.settings]
      refine hpause.mark_cases.imp_right ?_
      rintro ⟨payload, last, hpayload, hoffers, hlast, hmark⟩
      exact ⟨p, rfl, payload, last, hpayload, hoffers, hlast, hmark⟩

theorem Orderly.status_stop (h : w.Orderly kind settings) :
    w.background.stop.status =
      { w.collector.status with mark := w.background.stop.mark.value } := by
  cases hpartway : w.partway with
  | none => rw [background_stop_of_idle hpartway, ← h.settled.shown]
  | some p =>
      obtain ⟨-, -, since, n, -, hpause⟩ := h.partway p hpartway
      rw [background_stop_of_partway hpartway]
      exact hpause.status_abandon h.settled

theorem Goes.orderly (hgoes : w.Goes kind next) (h : w.Orderly kind settings) :
    next.Orderly kind settings := by
  cases hgoes with
  | stays => exact ⟨h.settings, h.settled, h.partway⟩
  | waits hunder henabled hpolls hpause =>
      refine ⟨h.settings, h.settled, fun q hq => ?_⟩
      obtain rfl := Option.some.inj hq
      exact ⟨hunder, henabled, _, _, hpolls, hpause⟩
  | ends hunder hpolls hcourse =>
      exact ⟨hcourse.settings_eq.trans h.settings, hcourse.settled,
        fun q hq => absurd hq (Option.not_mem_none q)⟩
  | stopped => exact ⟨h.stop.1, h.stop.2, fun q hq => absurd hq (Option.not_mem_none q)⟩

/-- Work stays orderly over all that happens, and keeps whatever each step of orderly work keeps. -/
theorem Orderly.afterAll {motive : Work → Prop}
    (hstep : ∀ {w next : Work}, w.Orderly kind settings → w.Goes kind next → motive w → motive next)
    (h : w.Orderly kind settings) (hw : motive w) {happenings : List Happening}
    (hunder : ∀ happening ∈ happenings, happening.Under kind) {reached : Work}
    (hreached : w.afterAll happenings = some reached) :
    reached.Orderly kind settings ∧ motive reached := by
  induction happenings generalizing w with
  | nil =>
      obtain rfl := Option.some.inj hreached
      exact ⟨h, hw⟩
  | cons happening r ih =>
      rw [Work.afterAll, List.foldlM_cons] at hreached
      obtain ⟨next, hnext, hrest⟩ := Option.bind_eq_some_iff.1 hreached
      have hgoes := h.goes (hunder happening List.mem_cons_self) hnext
      exact ih (hgoes.orderly h) (hstep h hgoes hw)
        (fun later hlater => hunder later (List.mem_cons_of_mem happening hlater)) hrest

theorem orderly_new (kind : Fate → Prop) (settings : Settings) (saved : Option Instant)
    (start : Instant) (store : Marks) (tick : Nat) :
    Work.Orderly kind settings { collector := .new settings saved start, store, tick } :=
  ⟨rfl, ⟨rfl, rfl⟩, fun q hq => absurd hq (Option.not_mem_none q)⟩

/-- What a capture keeps between a start and a mark is among the rows. -/
def Complete (settings : Settings) (start : Instant) (events : List Event) (mark : Instant)
    (rows : List Row) : Prop :=
  ∀ e ∈ distinctSince start events, e.time ≤ mark → settings.assembler.buildRow e ∈ rows

section Capture

variable {start : Instant} {events : List Event}

/-- Rows stay complete when those are added that the capture keeps after the mark. -/
theorem Complete.append {mark later : Instant} {rows more : List Row}
    (h : Complete settings start events mark rows)
    (hmore : ∀ e ∈ distinctSince mark events, e.time ≤ later →
      settings.assembler.buildRow e ∈ more) :
    Complete settings start events later (rows ++ more) := by
  intro e he hle
  rcases le_or_gt e.time mark with hold | hnew
  · exact List.mem_append_left more (h e he hold)
  · have hkept : e ∈ distinctSince mark events :=
      Source.mem_distinctSince.2 ⟨hnew, (Source.mem_distinctSince.1 he).2⟩
    exact List.mem_append_right rows (hmore e hkept hle)

theorem pollSince_of_settings (h : w.collector.settings = settings)
    (hlookback : settings.lookback = none) (f : Fate) :
    w.collector.pollSince f.now = some w.collector.mark.value := by
  simp only [Collector.pollSince, h, hlookback]

theorem mem_taken_of_pause {n : Nat}
    (h : Pause w.collector p.fate w.store w.collector.mark.value n p.flight.cycle p.world)
    (hs : w.collector.pollSince p.fate.now = some w.collector.mark.value)
    (hf : p.fate.Replays events) {e : Event}
    (he : e ∈ distinctSince w.collector.mark.value events)
    (hle : e.time ≤ p.flight.cycle.collector.mark.value) :
    w.collector.settings.assembler.buildRow e ∈ p.taken w.collector := by
  have htaken := h.mem_taken hs hf he hle
  unfold Partway.taken
  split
  · rename_i hsource
    rw [h.mark_of_source hsource] at hle
    exact absurd (Source.mem_distinctSince.1 he).1 (not_lt.2 hle)
  · exact htaken

/-- Wherever work is stopped, what the capture keeps up to the mark that it gives back is taken. -/
theorem Orderly.complete_stop (h : w.Orderly (·.Replays events) settings)
    (hlookback : settings.lookback = none)
    (hw : Complete settings start events w.collector.mark.value w.rows) :
    Complete settings start events w.background.stop.mark.value w.taken := by
  cases hpartway : w.partway with
  | none =>
      rw [background_stop_of_idle hpartway, taken, hpartway]
      exact hw
  | some p =>
      obtain ⟨hf, -, since, n, hs, hpause⟩ := h.partway p hpartway
      have hmark := pollSince_of_settings h.settings hlookback p.fate
      obtain rfl : since = w.collector.mark.value := Option.some.inj (hs.symm.trans hmark)
      rw [background_stop_of_partway hpartway, taken, hpartway]
      refine hw.append fun e he hle => ?_
      rw [← h.settings]
      exact mem_taken_of_pause hpause hs hf he hle

theorem Goes.complete (hgoes : w.Goes (·.Replays events) next)
    (h : w.Orderly (·.Replays events) settings) (hlookback : settings.lookback = none)
    (hw : Complete settings start events w.collector.mark.value w.rows) :
    Complete settings start events next.collector.mark.value next.rows := by
  cases hgoes with
  | stays => exact hw
  | waits => exact hw
  | @ends f _ since _ _ hf hs hcourse =>
      have hmark := pollSince_of_settings h.settings hlookback f
      obtain rfl : since = w.collector.mark.value := Option.some.inj (hs.symm.trans hmark)
      refine hw.append fun e he hle => ?_
      rw [← h.settings]
      exact hcourse.mem_taken hs hf he hle
  | stopped => exact h.complete_stop hlookback hw

end Capture

theorem afterAll_concat {happenings : List Happening} {happening : Happening}
    (hbefore : w.afterAll happenings = some next) :
    w.afterAll (happenings ++ [happening]) = next.after happening := by
  rw [afterAll, List.foldlM_append, ← afterAll, hbefore]
  simp only [Option.bind_eq_bind, Option.bind_some, List.foldlM_cons, List.foldlM_nil, bind_pure]

section Foreground

theorem answered_of_ended {result : Except Failure Summary}
    (h : p.flight.cycle.progress = .ended result) : p.answered = p := by
  have hresume : (p.flight.cycle.resume p.fate.surroundings).run p.world =
      (p.flight.cycle, p.world) := Cycle.resumeTimes_ended (n := 1) h
  unfold Partway.answered
  rw [hresume]

/-- An answer takes a cycle further, unless it has ended. -/
theorem after_answered_proceed : (w.proceed p).after .answered = some (w.proceed p.answered) := by
  cases hprogress : p.flight.cycle.progress with
  | waits on =>
      rw [proceed_of_waits hprogress]
      exact congrArg some (proceed_partway w (some p))
  | ended result =>
      rw [answered_of_ended hprogress, proceed_of_ended hprogress]
      rfl

theorem afterAll_answered (n : Nat) :
    (w.proceed p).afterAll (List.replicate n .answered) =
      let done := (p.flight.cycle.resumeTimes p.fate.surroundings n).run p.world
      some (w.proceed
        { p with flight := { p.flight with cycle := done.1 }, world := done.2 }) := by
  induction n generalizing p with
  | zero => rfl
  | succ n ih =>
      rw [List.replicate_succ, afterAll, List.foldlM_cons, after_answered_proceed,
        Option.bind_eq_bind, Option.bind_some, ← afterAll, ih, Cycle.resumeTimes_succ]
      rfl

/-- A cycle that nobody stops comes to what it comes to when it is run by itself. -/
theorem afterAll_of_runCycle {f : Fate} (clock delay : Nat) {cycle : Cycle} {world : World}
    (hidle : w.partway = none)
    (hrun : (w.collector.runCycle f.surroundings f.now).run ⟨w.store, []⟩ = (some cycle, world)) :
    w.afterAll (.due f clock delay ::
        List.replicate (w.collector.settings.sinks.length + 2) .answered) =
      some
        { collector := cycle.collector
          store := world.store
          tick := w.background.nextTick clock
          rows := w.rows ++ w.collector.takenRows f world.offers } := by
  obtain ⟨result, hend⟩ := Collector.ended_of_runCycle hrun
  cases hbegin : w.collector.begin f.now with
  | none =>
      rw [Collector.runCycle, hbegin] at hrun
      cases hrun
  | some first =>
      have hfinish : (first.resumeTimes f.surroundings
          (w.collector.settings.sinks.length + 2)).run ⟨w.store, []⟩ = (cycle, world) := by
        rw [Collector.runCycle, hbegin] at hrun
        rw [← Collector.settings_of_begin hbegin]
        obtain ⟨hcycle, hworld⟩ := Prod.mk.inj hrun
        exact Prod.ext (Option.some.inj hcycle) hworld
      have hdue : w.after (.due f clock delay) =
          some (({ w with tick := w.background.nextTick clock } : Work).proceed
            ⟨⟨first, delay, clock + delay⟩, f, ⟨w.store, []⟩⟩) := by
        simp only [after, hidle, hbegin, Option.map_some]
      rw [afterAll, List.foldlM_cons, hdue, Option.bind_eq_bind, Option.bind_some, ← afterAll,
        afterAll_answered]
      simp only [hfinish]
      rw [proceed_of_ended hend]

end Foreground

end Work

/-- Wherever work is stopped that began with a new collector, in whatever cycle and at whatever wait
of it: the collector that comes back has the mark from before the cycle under way, or every sink has
taken that cycle's payload and the mark is the time of its last row. The collector is idle, its
status shows its mark, and is otherwise the one from before the cycle. On a capture, every event
after the start and up to the mark has its row among those that every sink has taken, or that of the
first event at its time. -/
theorem stopping_loses_no_row {settings : Settings} {saved : Option Instant} {start : Instant}
    {store : Marks} {tick : Nat} {happenings : List Happening} {reached : Work}
    (hreached : Work.afterAll { collector := .new settings saved start, store, tick } happenings =
      some reached) :
    let before := reached.collector
    let returned := reached.background.stop
    (returned.mark = before.mark ∨ ∃ p ∈ reached.partway, ∃ payload last,
      before.payload? p.fate = some payload ∧
      p.world.offers = settings.sinks.map (⟨·, payload, none⟩) ∧
      payload.rows.getLast? = some last ∧
      returned.mark = ⟨before.mark.instanceName, last.time⟩) ∧
    returned.status.activity = .idle ∧
    returned.status = { before.status with mark := returned.mark.value } ∧
    ∀ events, settings.lookback = none →
      (∀ happening ∈ happenings, happening.Under (·.Replays events)) →
      ∀ e ∈ events, saved.getD start < e.time → e.time ≤ returned.mark.value →
        ∃ kept, firstAt e.time events = some kept ∧
          settings.assembler.buildRow kept ∈ reached.taken := by
  intro before returned
  -- Mark and status hold under any fates; only the rows ask for a capture.
  obtain ⟨horderly, -⟩ :=
    (Work.orderly_new (fun _ => True) settings saved start store tick).afterAll
      (motive := fun _ => True) (fun _ _ _ => trivial) trivial
      (fun happening _ => by cases happening <;> trivial) hreached
  refine ⟨horderly.mark_stop, horderly.stop.2.idle, horderly.status_stop, ?_⟩
  intro events hlookback hunder e he hafter hle
  have hnew : Work.Complete settings (saved.getD start) events (saved.getD start) [] :=
    fun e he hle => absurd (Source.mem_distinctSince.1 he).1 (not_lt.2 hle)
  obtain ⟨hreplays, hcomplete⟩ :=
    (Work.orderly_new (·.Replays events) settings saved start store tick).afterAll
      (motive := fun w =>
        Work.Complete settings (saved.getD start) events w.collector.mark.value w.rows)
      (fun h hgoes hw => hgoes.complete h hlookback hw) hnew hunder hreached
  obtain ⟨kept, hkept⟩ : ∃ kept, firstAt e.time events = some kept :=
    Option.isSome_iff_exists.1 (List.find?_isSome.2 ⟨e, he, by simp⟩)
  have htime : kept.time = e.time := by simpa using List.find?_some hkept
  refine ⟨kept, hkept, hreplays.complete_stop hlookback hcomplete kept ?_ ?_⟩
  · exact Source.mem_distinctSince.2 (htime.symm ▸ ⟨hafter, hkept⟩)
  · exact htime ▸ hle

/-- The first cycle moves the mark, but its save is denied; the second is given up while it waits
for the source. -/
theorem stopped_second_cycle_loses_no_row :
    let happenings := .due deniedFate 0 0 :: List.replicate 4 .answered ++
      [.due (.smooth sampleEvents) 10000 0]
    ∃ reached, Work.afterAll
        { collector := .new sampleCollector.settings none .epoch, store := .empty, tick := 0 }
        happenings = some reached ∧
      sampleCollector.settings.lookback = none ∧
      (∀ happening ∈ happenings, happening.Under (·.Replays sampleEvents)) ∧
      reached.partway.isSome ∧ .epoch < reached.background.stop.mark.value ∧
      reached.background.stop.status.activity = .idle ∧
      ∀ e ∈ sampleEvents, .epoch < e.time → e.time ≤ reached.background.stop.mark.value →
        ∃ kept, firstAt e.time sampleEvents = some kept ∧
          sampleCollector.settings.assembler.buildRow kept ∈ reached.taken := by
  intro happenings
  obtain ⟨cycle, w, hrun, -, hsettings, hmoved, -, -⟩ :=
    Collector.runCycle_of_denied .empty rfl rfl sampleCollector_polled sampleEvents_new
      deniedFate_accepts rfl
  obtain ⟨first, hfirst, hcollector, hbetween⟩ : ∃ first,
      Work.afterAll
        { collector := .new sampleCollector.settings none .epoch, store := .empty, tick := 0 }
        (.due deniedFate 0 0 :: List.replicate 4 .answered) = some first ∧
      first.collector = cycle.collector ∧ first.partway = none :=
    ⟨_, Work.afterAll_of_runCycle 0 0 rfl hrun, rfl, rfl⟩
  have hunder : ∀ happening ∈ happenings, happening.Under (·.Replays sampleEvents) := by
    intro happening hmem
    simp only [happenings, List.mem_append, List.mem_cons, List.mem_replicate, List.not_mem_nil,
      or_false] at hmem
    rcases hmem with (rfl | ⟨-, rfl⟩) | rfl
    · exact smooth_replays sampleEvents
    · trivial
    · exact smooth_replays sampleEvents
  have hs : first.collector.pollSince (Fate.smooth sampleEvents).now =
      some first.collector.mark.value := by
    simp only [Collector.pollSince, hcollector, hsettings]
    rfl
  have hsecond := Work.after_due_of_polls 10000 0 hbetween (by rw [hcollector, hsettings]; rfl) hs
  have hreached := (Work.afterAll_concat hfirst).trans hsecond
  obtain ⟨-, hidle, -, hcomplete⟩ := stopping_loses_no_row hreached
  exact ⟨_, hreached, rfl, hunder, rfl, hcollector ▸ hmoved, hidle,
    hcomplete sampleEvents rfl hunder⟩

end DeadlockCapture.Rehearsal
