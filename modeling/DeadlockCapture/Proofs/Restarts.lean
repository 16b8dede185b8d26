import DeadlockCapture.Proofs.Delivery

/-!
Restarts. A lifetime is a run of cycles in which the collector is dropped now and then, and a new
one is built from the store. What was delivered after the last save comes a second time, but nothing
is lost, and nothing that a completed cycle handed out comes again.
-/

namespace DeadlockCapture.Collection

open Report (Event Payload Row)
open Source (distinctSince lastTime)
open Storage (Marks)
open Time (Instant)

/-- A cycle as seen from outside: who ran it, under which fate, what it offered, and its end. -/
structure Turn where
  collector : Collector
  fate : Fate
  offers : List Offer
  progress : Progress

namespace Turn

/-- The rows of the turn's payload if every sink has taken it. -/
def taken (t : Turn) : List Row :=
  t.collector.takenRows t.fate t.offers

/-- The rows that some sink has been offered. -/
def offered (t : Turn) : List Row :=
  t.offers.flatMap fun o => o.payload.rows

def Completed (t : Turn) : Prop :=
  ∃ summary, t.progress = .ended (.ok summary)

end Turn

/-- What happens in a lifetime. -/
inductive Act where
  | cycle (f : Fate)
  | restart (settings : Settings)

/-- The act suits a lifetime: its source plays back the capture, and its new collector is for the
same instance and has no bound on looking back. -/
def Act.Fits (events : List Event) (name : String) : Act → Prop
  | .cycle f => f.Replays events
  | .restart settings => settings.instanceName = name ∧ settings.lookback = none

structure Lifetime where
  collector : Collector
  store : Marks
  turns : List Turn := []

namespace Lifetime

/-- A cycle of the collector, or a new collector from the store. -/
def after (start : Instant) (l : Lifetime) : Act → Lifetime
  | .cycle f =>
    match (l.collector.runCycle f.surroundings f.now).run ⟨l.store, []⟩ with
    | (none, _) => l
    | (some cycle, w) =>
      ⟨cycle.collector, w.store, l.turns ++ [⟨l.collector, f, w.offers, cycle.progress⟩]⟩
  | .restart settings =>
    match Collector.build settings (.memory l.store) {} start with
    | .ok c => { l with collector := c }
    | .error _ => l

def afterAll (start : Instant) (l : Lifetime) (acts : List Act) : Lifetime :=
  acts.foldl (after start) l

end Lifetime

/-- A collector is built with the mark of its instance, whatever kind of store gives it. -/
theorem build_of_load {settings : Settings} {store : Storage.Store} {files : Storage.Files}
    {start : Instant} {saved : Option Instant}
    (h : store.load files settings.instanceName = .ok saved) :
    Collector.build settings store files start = .ok (.new settings saved start) := by
  rw [Collector.build, h]

section Payload

variable {c : Collector} {f : Fate} {since : Instant} {p : Payload} {row : Row}

/-- The rows of a payload lie after the bound of its poll, and the last of them is the latest. -/
theorem time_of_mem_payload (hs : c.pollSince f.now = some since) (hp : c.payload? f = some p)
    (hrow : row ∈ p.rows) :
    since < row.time ∧ ∀ last ∈ p.rows.getLast?, row.time ≤ last.time := by
  obtain ⟨front, back, hpolled, -, hrows⟩ := Collector.rows_of_payload hs hp
  obtain ⟨found, hfound⟩ := Collector.found_of_polled hpolled
  rw [hrows] at hrow
  obtain ⟨e, he, rfl⟩ := List.mem_map.1 hrow
  rw [Report.time_buildRow]
  constructor
  · have hmem : e ∈ distinctSince since found := hfound ▸ List.mem_append_left back he
    exact (Source.mem_distinctSince.1 hmem).1
  · intro last hlast
    have hascending : Source.Ascending front :=
      (List.pairwise_append.1 (hfound ▸ Source.distinctSince_ascending since found)).1
    have htime : last.time = lastTime since front := Collector.time_of_last hrows hlast
    rw [htime]
    exact hascending.time_le_lastTime he

/-- A payload of a capture holds the row of every event that the capture keeps after the bound of
the poll, up to the last row. -/
theorem mem_rows_of_le {events : List Event} {e : Event} (hs : c.pollSince f.now = some since)
    (hf : f.Replays events) (hp : c.payload? f = some p) (hlast : p.rows.getLast? = some row)
    (he : e ∈ distinctSince since events) (hle : e.time ≤ row.time) :
    c.settings.assembler.buildRow e ∈ p.rows := by
  obtain ⟨front, back, hpolled, -, hrows⟩ := Collector.rows_of_payload hs hp
  obtain ⟨rest, hsplit⟩ := (List.prefix_append front back).trans (hf.polled hpolled).1
  have htime : row.time = lastTime since front := Collector.time_of_last hrows hlast
  rw [hrows]
  rw [← hsplit, List.mem_append] at he
  rcases he with he | he
  · exact List.mem_map_of_mem he
  · rw [← Source.distinctSince_lastTime hsplit.symm, ← htime] at he
    exact absurd (Source.mem_distinctSince.1 he).1 (not_lt.2 hle)

theorem payload_of_mem_offersFrom {place : Nat} {left : List Sink.Output} {o : Offer}
    (h : o ∈ f.offersFrom p place left) : o.payload = p := by
  induction left generalizing place with
  | nil => simp [Fate.offersFrom] at h
  | cons output r ih =>
      rw [Fate.offersFrom] at h
      rcases List.mem_cons.1 h with rfl | h
      · rfl
      · split at h
        · exact ih h
        · simp at h

end Payload

namespace Course

variable {c : Collector} {f : Fate} {store : Marks} {since : Instant} {cycle : Cycle} {w : World}

theorem payload_of_offer (h : Course c f store since cycle w) {o : Offer} (ho : o ∈ w.offers) :
    c.payload? f = some o.payload := by
  cases h with
  | sourceFails => cases ho
  | nothingNew => cases ho
  | sinkRefuses hpayload => rw [payload_of_mem_offersFrom ho, hpayload]
  | saveFails hpayload => rw [payload_of_mem_offersFrom ho, hpayload]
  | saved _ hpayload => rw [payload_of_mem_offersFrom ho, hpayload]

/-- The mark does not go back, and the store has the new mark or is as it was. -/
theorem mark_forward (h : Course c f store since cycle w) :
    cycle.collector.mark.instanceName = c.mark.instanceName ∧
      c.mark.value ≤ cycle.collector.mark.value ∧
      (w.store = store ∨
        w.store = store.insert c.mark.instanceName cycle.collector.mark.value) := by
  cases h with
  | sourceFails => exact ⟨rfl, le_refl _, .inl rfl⟩
  | nothingNew => exact ⟨rfl, le_refl _, .inl rfl⟩
  | sinkRefuses => exact ⟨rfl, le_refl _, .inl rfl⟩
  | saveFails _ _ _ hlater => exact ⟨rfl, hlater.le, .inl rfl⟩
  | saved _ _ _ _ hlater => exact ⟨rfl, hlater.le, .inr rfl⟩

/-- A course that ends well has put together no payload, or has saved the time of the last row. -/
theorem saved_of_completed (h : Course c f store since cycle w)
    (hs : c.pollSince f.now = some since) {summary : Summary}
    (hend : cycle.progress = .ended (.ok summary)) :
    (c.payload? f = none ∧ c.takenRows f w.offers = []) ∨
      ∃ p last, c.payload? f = some p ∧ p.rows.getLast? = some last ∧
        c.takenRows f w.offers = p.rows ∧
        w.store = store.insert c.mark.instanceName last.time := by
  cases h with
  | sourceFails => cases hend
  | nothingNew hpolled =>
      have hnone := Collector.payload?_of_nothing_new hs hpolled
      exact .inl ⟨hnone, Collector.takenRows_of_no_payload hnone⟩
  | sinkRefuses => cases hend
  | saveFails => cases hend
  | saved _ hpayload haccepted hlast =>
      exact .inr ⟨_, _, hpayload, hlast, Collector.takenRows_of_accepted hpayload haccepted, rfl⟩

/-- What a capture keeps between the old mark and the new one is taken. -/
theorem mem_taken (h : Course c f store c.mark.value cycle w)
    (hs : c.pollSince f.now = some c.mark.value) {events : List Event} (hf : f.Replays events)
    {e : Event} (he : e ∈ distinctSince c.mark.value events)
    (hle : e.time ≤ cycle.collector.mark.value) :
    c.settings.assembler.buildRow e ∈ c.takenRows f w.offers := by
  have hafter : c.mark.value < e.time := (Source.mem_distinctSince.1 he).1
  cases h with
  | sourceFails => exact absurd hafter (not_lt.2 hle)
  | nothingNew => exact absurd hafter (not_lt.2 hle)
  | sinkRefuses => exact absurd hafter (not_lt.2 hle)
  | saveFails hpayload haccepted hlast =>
      rw [Collector.takenRows_of_accepted hpayload haccepted]
      exact mem_rows_of_le hs hf hpayload hlast he hle
  | saved hpolled hpayload haccepted hlast =>
      rw [Collector.takenRows_of_accepted hpayload haccepted]
      exact mem_rows_of_le hs hf hpayload hlast he hle

end Course

/-- A cycle leaves its collector with the same settings and a mark that has not gone back. The store
has the new mark or is as it was. What the capture keeps between the old mark and the new one is
taken; what is offered lies after the old mark; and what a completed turn hands out does not lie
after the mark in the store. -/
structure Turn.Moves (events : List Event) (before : Marks) (t : Turn) (after : Collector)
    (saved : Marks) : Prop where
  settings : after.settings = t.collector.settings
  instanceName : after.mark.instanceName = t.collector.mark.instanceName
  forward : t.collector.mark.value ≤ after.mark.value
  store : saved = before ∨ saved = before.insert t.collector.mark.instanceName after.mark.value
  taken : ∀ e ∈ distinctSince t.collector.mark.value events, e.time ≤ after.mark.value →
    t.collector.settings.assembler.buildRow e ∈ t.taken
  later : ∀ row ∈ t.offered, t.collector.mark.value < row.time
  kept : t.Completed → ∀ row ∈ t.taken ++ t.offered,
    ∃ m, saved.get? t.collector.mark.instanceName = some m ∧ row.time ≤ m

theorem Course.moves {c : Collector} {f : Fate} {store : Marks} {cycle : Cycle} {w : World}
    {events : List Event} (h : Course c f store c.mark.value cycle w)
    (hs : c.pollSince f.now = some c.mark.value) (hf : f.Replays events) :
    Turn.Moves events store ⟨c, f, w.offers, cycle.progress⟩ cycle.collector w.store := by
  obtain ⟨hname, hforward, hstore⟩ := h.mark_forward
  have hpayloadOfOffered {row : Row}
      (hrow : row ∈ (⟨c, f, w.offers, cycle.progress⟩ : Turn).offered) :
      ∃ p, c.payload? f = some p ∧ row ∈ p.rows := by
    obtain ⟨o, ho, hrow⟩ := List.mem_flatMap.1 hrow
    exact ⟨o.payload, h.payload_of_offer ho, hrow⟩
  refine ⟨h.settings_eq, hname, hforward, hstore, fun e he hle => h.mem_taken hs hf he hle, ?_, ?_⟩
  · intro row hrow
    obtain ⟨p, hp, hrow⟩ := hpayloadOfOffered hrow
    exact (time_of_mem_payload hs hp hrow).1
  · rintro ⟨summary, hend⟩ row hrow
    rcases h.saved_of_completed hs hend with ⟨hnone, hempty⟩ | ⟨p, last, hp, hlast, htaken, hsaved⟩
    · rcases List.mem_append.1 hrow with hrow | hrow
      · rw [Turn.taken, hempty] at hrow
        cases hrow
      · obtain ⟨p, hp, -⟩ := hpayloadOfOffered hrow
        rw [hnone] at hp
        cases hp
    · have hmem : row ∈ p.rows := by
        rcases List.mem_append.1 hrow with hrow | hrow
        · exact htaken ▸ hrow
        · obtain ⟨q, hq, hrow⟩ := hpayloadOfOffered hrow
          rw [hp] at hq
          exact Option.some.inj hq ▸ hrow
      refine ⟨last.time, ?_, (time_of_mem_payload hs hp hmem).2 last hlast⟩
      rw [hsaved, Storage.Marks.get?_insert, if_pos rfl]

/-- A disabled collector skips its cycle. -/
theorem Turn.moves_of_disabled {c : Collector} {f : Fate} {store : Marks} {events : List Event}
    (hdisabled : c.settings.enabled = false) :
    ∃ cycle w, (c.runCycle f.surroundings f.now).run ⟨store, []⟩ = (some cycle, w) ∧
      Turn.Moves events store ⟨c, f, w.offers, cycle.progress⟩ cycle.collector w.store := by
  have htaken : (⟨c, f, [], .ended (.ok (c.skippedSummary f.now))⟩ : Turn).taken = [] :=
    Collector.takenRows_of_no_payload (Collector.payload?_of_disabled f hdisabled)
  refine ⟨_, _, Collector.runCycle_of_disabled hdisabled, rfl, rfl, le_refl _, .inl rfl, ?_, ?_, ?_⟩
  · intro e he hle
    exact absurd (Source.mem_distinctSince.1 he).1 (not_lt.2 hle)
  · intro row hrow
    cases hrow
  · intro _ row hrow
    rw [htaken] at hrow
    cases hrow

theorem Turn.moves_of_runCycle {c : Collector} {f : Fate} (store : Marks) {events : List Event}
    (hlookback : c.settings.lookback = none) (hf : f.Replays events) :
    ∃ cycle w, (c.runCycle f.surroundings f.now).run ⟨store, []⟩ = (some cycle, w) ∧
      Turn.Moves events store ⟨c, f, w.offers, cycle.progress⟩ cycle.collector w.store := by
  cases henabled : c.settings.enabled with
  | false => exact Turn.moves_of_disabled henabled
  | true =>
      have hs : c.pollSince f.now = some c.mark.value := by simp [Collector.pollSince, hlookback]
      obtain ⟨cycle, w, hrun, hcourse⟩ := c.runCycle_course f store henabled hs
      exact ⟨cycle, w, hrun, hcourse.moves hs hf⟩

/-- What holds at every point of a lifetime: the mark in the store lies between the start and the
collector's mark; what the capture keeps up to the collector's mark was taken in some turn; what
completed turns handed out does not lie after the mark in the store, nor after anything that was
offered later. -/
structure Lifetime.Sound (name : String) (start : Instant) (events : List Event) (l : Lifetime) :
    Prop where
  instanceName : l.collector.mark.instanceName = name
  lookback : l.collector.settings.lookback = none
  started : start ≤ l.collector.mark.value
  stored : ∀ m, l.store.get? name = some m → start ≤ m ∧ m ≤ l.collector.mark.value
  taken : ∀ e ∈ distinctSince start events, e.time ≤ l.collector.mark.value →
    ∃ t ∈ l.turns, t.collector.settings.assembler.buildRow e ∈ t.taken
  kept : ∀ t ∈ l.turns, t.Completed → ∀ row ∈ t.taken ++ t.offered,
    ∃ m, l.store.get? name = some m ∧ row.time ≤ m
  apart : l.turns.Pairwise fun earlier later => earlier.Completed →
    ∀ row ∈ earlier.taken ++ earlier.offered, ∀ row' ∈ later.offered, row.time < row'.time

namespace Lifetime

variable {name : String} {start : Instant} {events : List Event} {l : Lifetime}

/-- The mark in the store is not lost and does not go back. -/
def StoreMoves (name : String) (before after : Marks) : Prop :=
  ∀ m, before.get? name = some m → ∃ m', after.get? name = some m' ∧ m ≤ m'

theorem StoreMoves.refl (name : String) (store : Marks) : StoreMoves name store store :=
  fun m hm => ⟨m, hm, le_refl m⟩

theorem StoreMoves.trans {first second third : Marks} (h : StoreMoves name first second)
    (h' : StoreMoves name second third) : StoreMoves name first third := by
  intro m hm
  obtain ⟨m', hm', hle⟩ := h m hm
  obtain ⟨m'', hm'', hle'⟩ := h' m' hm'
  exact ⟨m'', hm'', hle.trans hle'⟩

/-- One cycle keeps a lifetime sound. -/
theorem Sound.turn (h : l.Sound name start events) {t : Turn} {after : Collector} {saved : Marks}
    (ht : t.collector = l.collector) (hm : t.Moves events l.store after saved) :
    Sound name start events ⟨after, saved, l.turns ++ [t]⟩ ∧ StoreMoves name l.store saved := by
  have hname : t.collector.mark.instanceName = name := by rw [ht, h.instanceName]
  have hforward : l.collector.mark.value ≤ after.mark.value := ht ▸ hm.forward
  have hstore : StoreMoves name l.store saved := by
    rcases hm.store with rfl | rfl
    · exact .refl name l.store
    · intro m hmark
      refine ⟨after.mark.value, ?_, (h.stored m hmark).2.trans hforward⟩
      rw [hname, Storage.Marks.get?_insert, if_pos rfl]
  refine ⟨⟨?_, ?_, h.started.trans hforward, ?_, ?_, ?_, ?_⟩, hstore⟩
  · rw [hm.instanceName, hname]
  · rw [hm.settings, ht, h.lookback]
  · intro m hmark
    rcases hm.store with rfl | rfl
    · exact ⟨(h.stored m hmark).1, (h.stored m hmark).2.trans hforward⟩
    · rw [hname, Storage.Marks.get?_insert, if_pos rfl, Option.some.injEq] at hmark
      subst hmark
      exact ⟨h.started.trans hforward, le_refl _⟩
  · intro e he hle
    by_cases hold : e.time ≤ l.collector.mark.value
    · obtain ⟨t', ht', hrow⟩ := h.taken e he hold
      exact ⟨t', List.mem_append_left _ ht', hrow⟩
    · have hnew : e ∈ distinctSince t.collector.mark.value events := by
        rw [ht, Source.mem_distinctSince]
        exact ⟨not_le.1 hold, (Source.mem_distinctSince.1 he).2⟩
      exact ⟨t, List.mem_append_right _ (List.mem_singleton.2 rfl), hm.taken e hnew hle⟩
  · intro t' ht' hend row hrow
    rcases List.mem_append.1 ht' with ht' | ht'
    · obtain ⟨m, hmark, hle⟩ := h.kept t' ht' hend row hrow
      obtain ⟨m', hmark', hle'⟩ := hstore m hmark
      exact ⟨m', hmark', hle.trans hle'⟩
    · obtain rfl := List.mem_singleton.1 ht'
      exact hname ▸ hm.kept hend row hrow
  · refine List.pairwise_append.2 ⟨h.apart, List.pairwise_singleton _ _, ?_⟩
    intro earlier hearlier later hlater hend row hrow row' hrow'
    obtain rfl := List.mem_singleton.1 hlater
    obtain ⟨m, hmark, hle⟩ := h.kept earlier hearlier hend row hrow
    have hbefore : m ≤ l.collector.mark.value := (h.stored m hmark).2
    have hafter : l.collector.mark.value < row'.time := ht ▸ hm.later row' hrow'
    exact (hle.trans hbefore).trans_lt hafter

/-- A collector built from the store takes over. Its mark may lie before the old one, but not before
the start. -/
theorem Sound.restart (h : l.Sound name start events) {settings : Settings}
    (hname : settings.instanceName = name) (hlookback : settings.lookback = none) :
    Sound name start events
      { l with collector := .new settings (l.store.get? name) start } := by
  have hmark : start ≤ (Collector.new settings (l.store.get? name) start).mark.value ∧
      (Collector.new settings (l.store.get? name) start).mark.value ≤ l.collector.mark.value := by
    cases hsaved : l.store.get? name with
    | none => exact ⟨le_refl start, h.started⟩
    | some m => exact h.stored m hsaved
  refine ⟨hname, hlookback, hmark.1, ?_, ?_, h.kept, h.apart⟩
  · intro m hm
    refine ⟨(h.stored m hm).1, ?_⟩
    simp only [Collector.new, hm, Option.getD_some, le_refl]
  · exact fun e he hle => h.taken e he (hle.trans hmark.2)

theorem Sound.after (h : l.Sound name start events) {a : Act} (ha : a.Fits events name) :
    (l.after start a).Sound name start events ∧
      StoreMoves name l.store (l.after start a).store := by
  cases a with
  | cycle f =>
      obtain ⟨cycle, w, hrun, hmoves⟩ := Turn.moves_of_runCycle l.store h.lookback ha
      simp only [Lifetime.after, hrun]
      exact h.turn rfl hmoves
  | restart settings =>
      obtain ⟨hname, hlookback⟩ := ha
      have hbuild : Collector.build settings (.memory l.store) {} start =
          .ok (.new settings (l.store.get? name) start) := build_of_load (by rw [hname]; rfl)
      simp only [Lifetime.after, hbuild]
      exact ⟨h.restart hname hlookback, .refl name l.store⟩

theorem Sound.afterAll (h : l.Sound name start events) {acts : List Act}
    (hacts : ∀ a ∈ acts, a.Fits events name) :
    (l.afterAll start acts).Sound name start events ∧
      StoreMoves name l.store (l.afterAll start acts).store := by
  induction acts generalizing l with
  | nil => exact ⟨h, .refl name l.store⟩
  | cons a r ih =>
      obtain ⟨hfirst, hstore⟩ := h.after (hacts a List.mem_cons_self)
      obtain ⟨hrest, hstore'⟩ := ih hfirst fun b hb => hacts b (List.mem_cons_of_mem a hb)
      exact ⟨hrest, hstore.trans hstore'⟩

/-- A lifetime that begins without a mark in the store is sound. -/
theorem sound_of_fresh {settings : Settings} {store : Marks} (events : List Event)
    (hlookback : settings.lookback = none) (hfresh : store.get? settings.instanceName = none) :
    Sound settings.instanceName start events ⟨.new settings none start, store, []⟩ where
  instanceName := rfl
  lookback := hlookback
  started := le_refl start
  stored m hm := by
    rw [hfresh] at hm
    cases hm
  taken e he hle := absurd (Source.mem_distinctSince.1 he).1 (not_lt.2 hle)
  kept _ ht := by cases ht
  apart := .nil

end Lifetime

/-- A lifetime starts from a store without a mark. At every point, what the capture keeps up to the
mark in the store has been taken by every sink; no row that a completed cycle handed out, nor a row
of an earlier time, is offered again; and from there on the mark in the store stays and does not go
back. -/
theorem restarts_lose_and_repeat_nothing {settings : Settings} {store : Marks}
    {files : Storage.Files} {start : Instant} {first : Collector} (events : List Event)
    (acts : List Act) (hfirst : Collector.build settings (.memory store) files start = .ok first)
    (hlookback : settings.lookback = none) (hfresh : store.get? settings.instanceName = none)
    (hacts : ∀ a ∈ acts, a.Fits events settings.instanceName) :
    let reached := Lifetime.afterAll start ⟨first, store, []⟩ acts
    (∀ m, reached.store.get? settings.instanceName = some m →
      ∀ e ∈ distinctSince start events, e.time ≤ m →
        ∃ t ∈ reached.turns, t.collector.settings.assembler.buildRow e ∈ t.taken) ∧
    (reached.turns.Pairwise fun earlier later => earlier.Completed →
      ∀ row ∈ earlier.taken ++ earlier.offered, row ∉ later.offered ∧
        ∀ row' ∈ later.offered, row.time < row'.time) ∧
    ∀ more, (∀ a ∈ more, a.Fits events settings.instanceName) →
      ∀ m, reached.store.get? settings.instanceName = some m →
        ∃ m', (reached.afterAll start more).store.get? settings.instanceName = some m' ∧
          m ≤ m' := by
  intro reached
  have hload : (Storage.Store.memory store).load files settings.instanceName = .ok none := by
    rw [Storage.Store.load, hfresh]
  rw [build_of_load hload, Except.ok.injEq] at hfirst
  have hstart : Lifetime.Sound settings.instanceName start events ⟨first, store, []⟩ :=
    hfirst ▸ Lifetime.sound_of_fresh events hlookback hfresh
  obtain ⟨hsound, -⟩ := hstart.afterAll hacts
  refine ⟨fun m hm e he hle => ?_, hsound.apart.imp ?_, fun more hmore => ?_⟩
  · exact hsound.taken e he (hle.trans (hsound.stored m hm).2)
  · intro earlier later hapart hend row hrow
    have hlater := hapart hend row hrow
    exact ⟨fun hagain => lt_irrefl _ (hlater row hagain), hlater⟩
  · exact (hsound.afterAll hmore).2

section Sample

/-- A cycle whose save fails, and a restart that goes back to before it; then a sink that refuses,
and a restart with room for more rows. -/
def sampleActs : List Act :=
  [.cycle { Fate.smooth sampleEvents with save := some .corrupt },
    .restart sampleCollector.settings,
    .cycle (Fate.smooth sampleEvents),
    .cycle { Fate.smooth sampleEvents with
      sink := fun place => if place = 1 then some .channelFull else none },
    .restart { sampleCollector.settings with maxPayloadBytes := 1000 },
    .cycle (Fate.smooth sampleEvents)]

theorem sampleActs_fit : ∀ a ∈ sampleActs, a.Fits sampleEvents "primary" := by
  intro a ha
  simp only [sampleActs, List.mem_cons, List.not_mem_nil, or_false] at ha
  rcases ha with rfl | rfl | rfl | rfl | rfl | rfl
  · exact smooth_replays sampleEvents
  · exact ⟨rfl, rfl⟩
  · exact smooth_replays sampleEvents
  · exact smooth_replays sampleEvents
  · exact ⟨rfl, rfl⟩
  · exact smooth_replays sampleEvents

theorem sample_restarts_lose_and_repeat_nothing :
    let reached := Lifetime.afterAll .epoch ⟨sampleCollector, .empty, []⟩ sampleActs
    Marks.empty.get? "primary" = none ∧ (∀ a ∈ sampleActs, a.Fits sampleEvents "primary") ∧
      (∀ m, reached.store.get? "primary" = some m →
        ∀ e ∈ distinctSince .epoch sampleEvents, e.time ≤ m →
          ∃ t ∈ reached.turns, t.collector.settings.assembler.buildRow e ∈ t.taken) ∧
      (reached.turns.Pairwise fun earlier later => earlier.Completed →
        ∀ row ∈ earlier.taken ++ earlier.offered, row ∉ later.offered) ∧
      ∀ m, reached.store.get? "primary" = some m →
        ∃ m', (reached.afterAll .epoch sampleActs).store.get? "primary" = some m' ∧ m ≤ m' := by
  have hbuilt : Collector.build sampleCollector.settings (.memory .empty) {} .epoch =
      .ok sampleCollector := rfl
  obtain ⟨htaken, hapart, hstore⟩ :=
    restarts_lose_and_repeat_nothing sampleEvents sampleActs hbuilt rfl rfl sampleActs_fit
  refine ⟨rfl, sampleActs_fit, htaken, hapart.imp ?_, hstore sampleActs sampleActs_fit⟩
  exact fun h hend row hrow => (h hend row hrow).1

end Sample

end DeadlockCapture.Collection
