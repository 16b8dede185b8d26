import DeadlockCapture.Collection.Surroundings
import DeadlockCapture.Proofs.Assembly
import DeadlockCapture.Proofs.Polling

/-!
What one cycle does, whatever its surroundings answer. A fate fixes all answers of a cycle in
advance: of the source, of each sink by its place, and of the store. Under a fate a cycle goes from
pause to pause and takes one of five courses; a pause says what the cycle has done so far, a course
all that it changes.
-/

namespace DeadlockCapture.Collection

open Report (Event Payload Row)
open Sink (Output)
open Source (distinctSince)
open Storage (Marks)
open Time (Instant)

structure Fate where
  now : Instant
  stamp : UInt64
  source : Instant → Nat → Except Source.Fault (List Event)
  sink : Nat → Option Sink.Fault
  save : Option Storage.CheckpointFault

/-- A payload offered to an output, and the answer. -/
structure Offer where
  output : Output
  payload : Payload
  answer : Option Sink.Fault

/-- Who was asked, and the answer. -/
def Offer.outcome (o : Offer) : Output × Option Sink.Fault :=
  (o.output, o.answer)

/-- What a cycle acts on: a store, and the outputs, of which only the offers are kept. -/
structure World where
  store : Marks
  offers : List Offer := []

/-- The store after a save; one that fails leaves it as it was. -/
def Fate.storeAfter (f : Fate) (store : Marks) (mark : Mark) : Marks :=
  if f.save.isNone then store.insert mark.instanceName mark.value else store

def Fate.offer (f : Fate) (payload : Payload) (place : Nat) (output : Output) : Offer :=
  ⟨output, payload, f.sink place⟩

def Fate.surroundings (f : Fate) : Surroundings (StateM World) where
  fetch p since := pure (f.source since p.maxRows)
  stamp := pure f.stamp
  emit output payload := fun w =>
    (f.sink w.offers.length,
      { w with offers := w.offers ++ [f.offer payload w.offers.length output] })
  save mark := fun w => (f.save, { w with store := f.storeAfter w.store mark })

/-- The offers that are made from a place on: none after a refusal. -/
def Fate.offersFrom (f : Fate) (payload : Payload) (place : Nat) : List Output → List Offer
  | [] => []
  | output :: r =>
    f.offer payload place output ::
      if (f.sink place).isNone then f.offersFrom payload (place + 1) r else []

def Fate.refusalFrom (f : Fate) (place : Nat) : List Output → Option Sink.Fault
  | [] => none
  | _ :: r => (f.sink place).or (f.refusalFrom (place + 1) r)

/-- Each sink has taken the payload just when none refuses it. -/
theorem outcomes_offersFrom {f : Fate} {payload : Payload} {place : Nat} {left : List Output} :
    (f.offersFrom payload place left).map Offer.outcome = left.map (·, none) ↔
      f.refusalFrom place left = none := by
  induction left generalizing place with
  | nil => simp [Fate.offersFrom, Fate.refusalFrom]
  | cons output r ih =>
      cases hanswer : f.sink place with
      | some x => simp [Fate.offersFrom, Fate.refusalFrom, Fate.offer, Offer.outcome, hanswer]
      | none =>
          simp only [Fate.offersFrom, Fate.refusalFrom, Fate.offer, hanswer, Option.isNone_none,
            if_true, List.map_cons, Offer.outcome, List.cons.injEq, true_and, Option.none_or]
          exact ih

theorem refusalFrom_eq_none {f : Fate} {place : Nat} {left : List Output}
    (h : ∀ i < place + left.length, f.sink i = none) : f.refusalFrom place left = none := by
  induction left generalizing place with
  | nil => rfl
  | cons output r ih =>
      rw [List.length_cons] at h
      rw [Fate.refusalFrom, h place (by omega), Option.none_or]
      exact ih fun i hi => h i (by omega)

/-- A payload that no sink refuses goes from sink to sink. -/
theorem offersFrom_of_accepted {f : Fate} {payload : Payload} {place : Nat} {left : List Output}
    (h : f.refusalFrom place left = none) :
    f.offersFrom payload place left = left.map (⟨·, payload, none⟩) := by
  induction left generalizing place with
  | nil => rfl
  | cons output r ih =>
      obtain ⟨hanswer, hrest⟩ := Option.or_eq_none_iff.1 h
      simp [Fate.offersFrom, Fate.offer, hanswer, ih hrest]

section Append

variable {f : Fate} {payload : Payload} {place : Nat} {done left : List Output}

/-- Sinks that do not refuse leave the answer to those after them. -/
theorem refusalFrom_append (h : f.refusalFrom place done = none) :
    f.refusalFrom place (done ++ left) = f.refusalFrom (place + done.length) left := by
  induction done generalizing place with
  | nil => rfl
  | cons output r ih =>
      obtain ⟨hanswer, hrest⟩ := Option.or_eq_none_iff.1 h
      rw [List.cons_append, Fate.refusalFrom, hanswer, Option.none_or, ih hrest,
        List.length_cons, Nat.add_assoc, Nat.add_comm 1]

theorem offersFrom_append (h : f.refusalFrom place done = none) :
    f.offersFrom payload place (done ++ left) =
      f.offersFrom payload place done ++ f.offersFrom payload (place + done.length) left := by
  induction done generalizing place with
  | nil => rfl
  | cons output r ih =>
      obtain ⟨hanswer, hrest⟩ := Option.or_eq_none_iff.1 h
      simp only [List.cons_append, Fate.offersFrom, hanswer, Option.isNone_none, if_true,
        ih hrest, List.length_cons, Nat.add_assoc, Nat.add_comm 1]

end Append

namespace Cycle

theorem resumeTimes_ended {s : Surroundings (StateM World)} {n : Nat} {c : Cycle}
    {result : Except Failure Summary} {w : World} (h : c.progress = .ended result) :
    (resumeTimes s n c).run w = (c, w) := by
  obtain ⟨collector, progress, log⟩ := c
  subst h
  induction n with
  | zero => rfl
  | succ n ih => exact ih

section Resume

variable {f : Fate} {c : Collector} {summary : Summary} {log : List LogEvent} {w : World}

theorem resume_source :
    (resume f.surroundings ⟨c, .waits (.source summary), log⟩).run w =
      (c.afterSource summary f.stamp (f.source summary.since c.settings.poller.maxRows) log, w) :=
  rfl

theorem resume_sinks {payload : Payload} {output : Output} {rest : List Output} :
    (resume f.surroundings ⟨c, .waits (.sinks summary payload (output :: rest)), log⟩).run w =
      (c.afterSink summary payload (output :: rest) (f.sink w.offers.length) log,
        { w with offers := w.offers ++ [f.offer payload w.offers.length output] }) :=
  rfl

theorem resume_checkpoint :
    (resume f.surroundings ⟨c, .waits (.checkpoint summary), log⟩).run w =
      (c.afterSave summary f.save log, { w with store := f.storeAfter w.store c.mark }) :=
  rfl

theorem resumeTimes_succ {n : Nat} {cycle : Cycle} :
    (resumeTimes f.surroundings (n + 1) cycle).run w =
      (resumeTimes f.surroundings n ((resume f.surroundings cycle).run w).1).run
        ((resume f.surroundings cycle).run w).2 :=
  rfl

end Resume

end Cycle

namespace Collector

def polled (c : Collector) (f : Fate) (since : Instant) : Except Source.Fault (List Event) :=
  (f.source since c.settings.poller.maxRows).map (distinctSince since)

/-- The rows that fit into the payload of some events. -/
def assembled (c : Collector) (events : List Event) : Report.Assembly :=
  c.settings.assembler.assemble c.settings.maxPayloadBytes events

/-- The payload that a cycle puts together, if its poll gives anything. -/
def payload? (c : Collector) (f : Fate) : Option Payload :=
  if c.settings.enabled then
    match c.pollSince f.now with
    | none => none
    | some since =>
      match c.polled f since with
      | .error _ | .ok [] => none
      | .ok events => some (c.payloadOf f.stamp (c.assembled events).rows)
  else none

/-- The rows of a cycle's payload if each sink in turn has taken it. Where there is no sink to look
at, the payload is the one that the cycle puts together. -/
def takenRows (c : Collector) (f : Fate) (offers : List Offer) : List Row :=
  if offers.map Offer.outcome = c.settings.sinks.map (·, none) then
    match offers with
    | o :: _ => o.payload.rows
    | [] => ((c.payload? f).map Payload.rows).getD []
  else []

def openingSummary (c : Collector) (f : Fate) (since : Instant) : Summary :=
  { startedAt := f.now, since, mark := c.mark.value }

def assembledSummary (c : Collector) (f : Fate) (since : Instant) (events : List Event) : Summary :=
  { c.openingSummary f since with
    polled := events.length
    emitted := (c.assembled events).rows.length
    deferred := (c.assembled events).deferred
    parseErrors := (c.assembled events).parseErrors
    bytes := (c.assembled events).bytes }

def markedAt (c : Collector) (time : Instant) : Collector :=
  { c with mark := ⟨c.mark.instanceName, time⟩ }

end Collector

/-- The courses of a cycle that polls from an instant: how it ends and what it leaves. -/
inductive Course (c : Collector) (f : Fate) (store : Marks) (since : Instant) :
    Cycle → World → Prop where
  | sourceFails {x : Source.Fault} {log : List LogEvent} (hpolled : c.polled f since = .error x) :
      Course c f store since (c.begun.failWith (.source x) log) ⟨store, []⟩
  | nothingNew {log : List LogEvent} (hpolled : c.polled f since = .ok []) :
      Course c f store since (c.begun.succeedWith (c.openingSummary f since) log) ⟨store, []⟩
  | sinkRefuses {p : Payload} {x : Sink.Fault} {log : List LogEvent}
      (hpayload : c.payload? f = some p) (hrefused : f.refusalFrom 0 c.settings.sinks = some x) :
      Course c f store since (c.begun.failWith (.sink x) log)
        ⟨store, f.offersFrom p 0 c.settings.sinks⟩
  | saveFails {p : Payload} {row : Row} {x : Storage.CheckpointFault} {log : List LogEvent}
      (hpayload : c.payload? f = some p) (haccepted : f.refusalFrom 0 c.settings.sinks = none)
      (hlast : p.rows.getLast? = some row) (hlater : c.mark.value < row.time)
      (hdenied : f.save = some x) :
      Course c f store since ((c.begun.markedAt row.time).failWith (.checkpoint x) log)
        ⟨store, f.offersFrom p 0 c.settings.sinks⟩
  | saved {p : Payload} {row : Row} {events : List Event} {log : List LogEvent}
      (hpolled : c.polled f since = .ok events)
      (hpayload : c.payload? f = some p) (haccepted : f.refusalFrom 0 c.settings.sinks = none)
      (hlast : p.rows.getLast? = some row) (hlater : c.mark.value < row.time)
      (hkept : f.save = none) :
      Course c f store since
        ((c.begun.markedAt row.time).succeedWith
          { c.assembledSummary f since events with mark := row.time } log)
        ⟨store.insert c.mark.instanceName row.time, f.offersFrom p 0 c.settings.sinks⟩

theorem Course.ended {c : Collector} {f : Fate} {store : Marks} {since : Instant} {cycle : Cycle}
    {w : World} (h : Course c f store since cycle w) :
    ∃ result, cycle.progress = .ended result := by
  cases h <;> exact ⟨_, rfl⟩

/-- The pauses of a cycle that polls from an instant: where it waits with how many waits to go, and
what it has done by then. -/
inductive Pause (c : Collector) (f : Fate) (store : Marks) (since : Instant) :
    Nat → Cycle → World → Prop where
  | source {log : List LogEvent} :
      Pause c f store since (c.settings.sinks.length + 2)
        ⟨c.begun, .waits (.source (c.openingSummary f since)), log⟩ ⟨store, []⟩
  | sinks {events : List Event} {p : Payload} {done rest : List Output} {output : Output}
      {log : List LogEvent} (hpolled : c.polled f since = .ok events)
      (hpayload : c.payload? f = some p) (hsplit : c.settings.sinks = done ++ output :: rest)
      (haccepted : f.refusalFrom 0 done = none) :
      Pause c f store since (rest.length + 2)
        ⟨c.begun, .waits (.sinks (c.assembledSummary f since events) p (output :: rest)), log⟩
        ⟨store, f.offersFrom p 0 done⟩
  | checkpoint {events : List Event} {p : Payload} {row : Row} {log : List LogEvent}
      (hpolled : c.polled f since = .ok events) (hpayload : c.payload? f = some p)
      (haccepted : f.refusalFrom 0 c.settings.sinks = none)
      (hlast : p.rows.getLast? = some row) (hlater : c.mark.value < row.time) :
      Pause c f store since 1
        ⟨c.begun.markedAt row.time,
          .waits (.checkpoint { c.assembledSummary f since events with mark := row.time }), log⟩
        ⟨store, f.offersFrom p 0 c.settings.sinks⟩

namespace Collector

theorem mark_le_pollSince {c : Collector} {now since : Instant} (h : c.pollSince now = some since) :
    c.mark.value ≤ since := by
  unfold pollSince at h
  cases hl : c.settings.lookback with
  | none =>
      simp only [hl, Option.some.injEq] at h
      exact h.le
  | some lookback =>
      simp only [hl, Source.effectiveSince, Option.map_eq_some_iff] at h
      obtain ⟨bound, -, rfl⟩ := h
      split
      · assumption
      · exact le_refl _

/-- A poll gives what it keeps of the events that the source has found. -/
theorem found_of_polled {c : Collector} {f : Fate} {since : Instant} {events : List Event}
    (hp : c.polled f since = .ok events) : ∃ found, distinctSince since found = events := by
  unfold polled at hp
  cases h : f.source since c.settings.poller.maxRows with
  | error x => simp [h, Except.map] at hp
  | ok found => exact ⟨found, by simpa [h, Except.map] using hp⟩

theorem payload?_of_polled {c : Collector} {f : Fate} {since : Instant} {events : List Event}
    (henabled : c.settings.enabled = true) (hs : c.pollSince f.now = some since)
    (hp : c.polled f since = .ok events) (hne : events ≠ []) :
    c.payload? f = some (c.payloadOf f.stamp (c.assembled events).rows) := by
  cases events with
  | nil => exact absurd rfl hne
  | cons e r => simp [payload?, henabled, hs, hp]

/-- A payload consists of rows of the first events of its poll. -/
theorem rows_of_payload {c : Collector} {f : Fate} {since : Instant} {p : Payload}
    (hs : c.pollSince f.now = some since) (hp : c.payload? f = some p) :
    ∃ front back, c.polled f since = .ok (front ++ back) ∧ front ≠ [] ∧
      p.rows = front.map c.settings.assembler.buildRow := by
  unfold payload? at hp
  split at hp
  · simp only [hs] at hp
    split at hp
    · cases hp
    · cases hp
    · rename_i events hne hpolled
      obtain ⟨front, back, rfl, hrows, hfront⟩ :=
        Report.assemble_rows c.settings.assembler c.settings.maxPayloadBytes events
      obtain rfl := Option.some.inj hp
      exact ⟨front, back, hpolled, hfront hne, hrows⟩
  · cases hp

/-- A payload has a last row, and it lies after the bound of the poll. -/
theorem last_of_payload {c : Collector} {f : Fate} {since : Instant} {p : Payload}
    (hs : c.pollSince f.now = some since) (hp : c.payload? f = some p) :
    ∃ row, p.rows.getLast? = some row ∧ since < row.time := by
  obtain ⟨front, back, hpolled, hne, hrows⟩ := rows_of_payload hs hp
  obtain ⟨found, hfound⟩ := found_of_polled hpolled
  refine ⟨c.settings.assembler.buildRow (front.getLast hne), ?_, ?_⟩
  · rw [hrows, List.getLast?_map, List.getLast?_eq_getLast_of_ne_nil hne]
    rfl
  · have hmem : front.getLast hne ∈ distinctSince since found :=
      hfound ▸ List.mem_append_left back (List.getLast_mem hne)
    rw [Report.time_buildRow]
    exact (Source.mem_distinctSince.1 hmem).1

/-- The rows of a payload that every sink takes are taken. -/
theorem takenRows_of_accepted {c : Collector} {f : Fate} {p : Payload}
    (hp : c.payload? f = some p) (haccepted : f.refusalFrom 0 c.settings.sinks = none) :
    c.takenRows f (f.offersFrom p 0 c.settings.sinks) = p.rows := by
  unfold takenRows
  rw [if_pos (outcomes_offersFrom.2 haccepted)]
  cases c.settings.sinks with
  | nil => simp [Fate.offersFrom, hp]
  | cons output r => rfl

/-- Where no payload is put together and nothing is offered, nothing is taken. -/
theorem takenRows_of_no_payload {c : Collector} {f : Fate} (hp : c.payload? f = none) :
    c.takenRows f [] = [] := by
  simp [takenRows, hp]

theorem takenRows_of_refused {c : Collector} {f : Fate} {p : Payload} {x : Sink.Fault}
    (hrefused : f.refusalFrom 0 c.settings.sinks = some x) :
    c.takenRows f (f.offersFrom p 0 c.settings.sinks) = [] := by
  unfold takenRows
  rw [if_neg]
  rw [outcomes_offersFrom, hrefused]
  exact Option.some_ne_none x

theorem payload?_of_disabled {c : Collector} (f : Fate) (hdisabled : c.settings.enabled = false) :
    c.payload? f = none := by
  simp [payload?, hdisabled]

theorem payload?_of_source_fails {c : Collector} {f : Fate} {since : Instant} {x : Source.Fault}
    (hs : c.pollSince f.now = some since) (hp : c.polled f since = .error x) :
    c.payload? f = none := by
  simp [payload?, hs, hp]

theorem payload?_of_nothing_new {c : Collector} {f : Fate} {since : Instant}
    (hs : c.pollSince f.now = some since) (hp : c.polled f since = .ok []) :
    c.payload? f = none := by
  simp [payload?, hs, hp]

theorem time_of_last {c : Collector} {start : Instant} {front : List Event} {rows : List Row}
    {row : Row} (hrows : rows = front.map c.settings.assembler.buildRow)
    (hlast : rows.getLast? = some row) : row.time = Source.lastTime start front := by
  rw [hrows, List.getLast?_map, Option.map_eq_some_iff] at hlast
  obtain ⟨e, he, rfl⟩ := hlast
  rw [Report.time_buildRow, Source.lastTime, he]
  rfl

end Collector

namespace Pause

variable {c : Collector} {f : Fate} {store : Marks} {since : Instant}

/-- A payload is on its way to the sinks that are left; where none is left, the mark has moved. -/
theorem of_offer {events : List Event} {p : Payload} {done left : List Output}
    (log : List LogEvent) (hs : c.pollSince f.now = some since) (hp : c.polled f since = .ok events)
    (hpayload : c.payload? f = some p) (hsplit : c.settings.sinks = done ++ left)
    (haccepted : f.refusalFrom 0 done = none) :
    Pause c f store since (left.length + 1)
      (c.begun.offer (c.assembledSummary f since events) p left log)
      ⟨store, f.offersFrom p 0 done⟩ := by
  cases left with
  | cons output rest => exact .sinks hp hpayload hsplit haccepted
  | nil =>
      obtain ⟨row, hlast, hlater⟩ := Collector.last_of_payload hs hpayload
      have hmark : c.mark.value < row.time := (Collector.mark_le_pollSince hs).trans_lt hlater
      have hadvance : c.begun.mark.advance row.time = ⟨c.mark.instanceName, row.time⟩ := by
        simp [Mark.advance, Collector.begun, hmark]
      have hbefore : c.begun.mark.isBefore row.time = true := by
        simp [Mark.isBefore, Collector.begun, hmark]
      obtain rfl : c.settings.sinks = done := by rw [hsplit, List.append_nil]
      simp only [Collector.offer, Collector.delivered, hlast, hadvance, hbefore, List.isEmpty_nil,
        if_true]
      exact .checkpoint hp hpayload haccepted hlast hmark

/-- When a wait is over, the cycle waits again, with one wait less to go, or it has ended. -/
theorem resume {n : Nat} {cycle : Cycle} {w : World} (h : Pause c f store since (n + 1) cycle w)
    (henabled : c.settings.enabled = true) (hs : c.pollSince f.now = some since) :
    let next := (cycle.resume f.surroundings).run w
    Pause c f store since n next.1 next.2 ∨ Course c f store since next.1 next.2 := by
  generalize hn : n + 1 = m at h
  cases h with
  | source =>
      obtain rfl : n = c.settings.sinks.length + 1 := by omega
      rw [Cycle.resume_source]
      show Pause c f store since _
          (c.begun.afterSource _ _ (f.source since c.settings.poller.maxRows) _) _ ∨
        Course c f store since
          (c.begun.afterSource _ _ (f.source since c.settings.poller.maxRows) _) _
      cases hsource : f.source since c.settings.poller.maxRows with
      | error x =>
          have hp : c.polled f since = .error x := by
            simp [Collector.polled, hsource, Except.map]
          exact .inr (Course.sourceFails hp)
      | ok found =>
          have hp : c.polled f since = .ok (distinctSince since found) := by
            simp [Collector.polled, hsource, Except.map]
          by_cases hnone : distinctSince since found = []
          · simp only [Collector.afterSource, Collector.openingSummary, hnone, List.isEmpty_nil,
              if_true]
            exact .inr (.nothingNew (hnone ▸ hp))
          · have hempty : (distinctSince since found).isEmpty = false := by simpa using hnone
            simp only [Collector.afterSource, Collector.openingSummary, hempty,
              Bool.false_eq_true, if_false]
            have hpayload := Collector.payload?_of_polled henabled hs hp hnone
            exact .inl (of_offer _ hs hp hpayload (List.nil_append _).symm rfl)
  | @sinks events p done rest output log hp hpayload hsplit haccepted =>
      obtain rfl : n = rest.length + 1 := by omega
      have hplace : (f.offersFrom p 0 done).length = 0 + done.length := by
        rw [offersFrom_of_accepted haccepted, List.length_map, Nat.zero_add]
      rw [Cycle.resume_sinks]
      simp only [hplace]
      cases hanswer : f.sink (0 + done.length) with
      | some x =>
          have hrefused : f.refusalFrom 0 c.settings.sinks = some x := by
            rw [hsplit, refusalFrom_append haccepted, Fate.refusalFrom, hanswer, Option.some_or]
          have hoffers : f.offersFrom p 0 c.settings.sinks =
              f.offersFrom p 0 done ++ [f.offer p (0 + done.length) output] := by
            rw [hsplit, offersFrom_append haccepted, Fate.offersFrom, hanswer]
            rfl
          rw [← hoffers]
          exact .inr (.sinkRefuses hpayload hrefused)
      | none =>
          have haccepts : f.refusalFrom 0 (done ++ [output]) = none := by
            rw [refusalFrom_append haccepted, Fate.refusalFrom, hanswer]
            rfl
          have hoffers : f.offersFrom p 0 (done ++ [output]) =
              f.offersFrom p 0 done ++ [f.offer p (0 + done.length) output] := by
            rw [offersFrom_append haccepted, Fate.offersFrom, hanswer]
            rfl
          rw [← hoffers]
          exact .inl (of_offer log hs hp hpayload (by simp [hsplit]) haccepts)
  | checkpoint hp hpayload haccepted hlast hlater =>
      obtain rfl : n = 0 := by omega
      rw [Cycle.resume_checkpoint, Fate.storeAfter]
      cases hsave : f.save with
      | some x => exact .inr (.saveFails hpayload haccepted hlast hlater hsave)
      | none => exact .inr (.saved hp hpayload haccepted hlast hlater hsave)

/-- A cycle has ended when no wait is to go. -/
theorem ends {n : Nat} {cycle : Cycle} {w : World} (h : Pause c f store since n cycle w)
    (henabled : c.settings.enabled = true) (hs : c.pollSince f.now = some since) :
    let done := (cycle.resumeTimes f.surroundings n).run w
    Course c f store since done.1 done.2 := by
  induction n generalizing cycle w with
  | zero => cases h
  | succ n ih =>
      rw [Cycle.resumeTimes_succ]
      rcases h.resume henabled hs with hpause | hcourse
      · exact ih hpause
      · obtain ⟨result, hend⟩ := hcourse.ended
        rw [Cycle.resumeTimes_ended hend]
        exact hcourse

end Pause

section Begin

variable {c : Collector} {f : Fate}

theorem Collector.begin_of_polls {since : Instant} (henabled : c.settings.enabled = true)
    (hs : c.pollSince f.now = some since) :
    c.begin f.now = some ⟨c.begun, .waits (.source (c.openingSummary f since)), []⟩ := by
  simp only [Collector.begin, henabled, if_true, hs, Option.map_some]
  rfl

theorem Collector.begin_of_out_of_range (henabled : c.settings.enabled = true)
    (hs : c.pollSince f.now = none) : c.begin f.now = none := by
  simp only [Collector.begin, henabled, if_true, hs, Option.map_none]

theorem Collector.begin_of_disabled (hdisabled : c.settings.enabled = false) :
    c.begin f.now = some ⟨c, .ended (.ok (c.skippedSummary f.now)), [.skippedCycle]⟩ := by
  simp only [Collector.begin, hdisabled, Bool.false_eq_true, if_false]

theorem Collector.settings_of_begin {cycle : Cycle} (h : c.begin f.now = some cycle) :
    cycle.collector.settings = c.settings := by
  unfold Collector.begin at h
  split at h
  · obtain ⟨since, -, rfl⟩ := Option.map_eq_some_iff.1 h
    rfl
  · obtain rfl := Option.some.inj h
    rfl

end Begin

/-- A cycle of an enabled collector takes one of the courses. -/
theorem Collector.runCycle_course {c : Collector} (f : Fate) (store : Marks) {since : Instant}
    (henabled : c.settings.enabled = true) (hs : c.pollSince f.now = some since) :
    ∃ cycle world, (c.runCycle f.surroundings f.now).run ⟨store, []⟩ = (some cycle, world) ∧
      Course c f store since cycle world := by
  have hstart : Pause c f store since (c.settings.sinks.length + 2)
      ⟨c.begun, .waits (.source (c.openingSummary f since)), []⟩ ⟨store, []⟩ := .source
  rw [Collector.runCycle, Collector.begin_of_polls henabled hs]
  exact ⟨_, _, rfl, hstart.ends henabled hs⟩

section Runs

variable {c : Collector} {f : Fate} {store : Marks}

/-- A disabled collector skips its cycle: whatever it works with is not asked, and it stays as it
is. -/
theorem Collector.runCycle_disabled {m : Type → Type} [Monad m] [LawfulMonad m]
    (s : Surroundings m) (now : Instant) (hdisabled : c.settings.enabled = false) :
    c.runCycle s now = pure (some ⟨c, .ended (.ok (c.skippedSummary now)), [.skippedCycle]⟩) := by
  have hstays (n : Nat) (summary : Summary) (log : List LogEvent) :
      Cycle.resumeTimes s n ⟨c, .ended (.ok summary), log⟩ =
        pure ⟨c, .ended (.ok summary), log⟩ := by
    induction n with
    | zero => rfl
    | succ n ih => rw [Cycle.resumeTimes, Cycle.resume, pure_bind, ih]
  rw [Collector.runCycle, Collector.begin, if_neg (by rw [hdisabled]; exact Bool.false_ne_true)]
  simp only [Cycle.finish, hstays, pure_bind]

theorem Collector.runCycle_of_disabled (hdisabled : c.settings.enabled = false) :
    (c.runCycle f.surroundings f.now).run ⟨store, []⟩ =
      (some ⟨c, .ended (.ok (c.skippedSummary f.now)), [.skippedCycle]⟩, ⟨store, []⟩) := by
  rw [Collector.runCycle_disabled f.surroundings f.now hdisabled]
  rfl

/-- A cycle that has been run was skipped, or it has taken one of the courses. -/
theorem Collector.runCycle_cases {cycle : Cycle} {w : World}
    (hrun : (c.runCycle f.surroundings f.now).run ⟨store, []⟩ = (some cycle, w)) :
    (c.settings.enabled = false ∧
        cycle = ⟨c, .ended (.ok (c.skippedSummary f.now)), [.skippedCycle]⟩ ∧ w = ⟨store, []⟩) ∨
      ∃ since, c.pollSince f.now = some since ∧ Course c f store since cycle w := by
  cases henabled : c.settings.enabled with
  | false =>
      rw [Collector.runCycle_of_disabled henabled] at hrun
      cases hrun
      exact .inl ⟨rfl, rfl, rfl⟩
  | true =>
      cases hs : c.pollSince f.now with
      | none =>
          rw [Collector.runCycle, Collector.begin_of_out_of_range henabled hs] at hrun
          cases hrun
      | some since =>
          obtain ⟨_, _, hcourse, hend⟩ := c.runCycle_course f store henabled hs
          rw [hrun] at hcourse
          cases hcourse
          exact .inr ⟨since, rfl, hend⟩

theorem Collector.ended_of_runCycle {cycle : Cycle} {w : World}
    (hrun : (c.runCycle f.surroundings f.now).run ⟨store, []⟩ = (some cycle, w)) :
    ∃ result, cycle.progress = .ended result := by
  rcases Collector.runCycle_cases hrun with ⟨-, rfl, -⟩ | ⟨since, -, hcourse⟩
  · exact ⟨_, rfl⟩
  · exact hcourse.ended

end Runs

namespace Course

variable {c : Collector} {f : Fate} {store : Marks} {since : Instant} {cycle : Cycle} {w : World}

theorem settings_eq (h : Course c f store since cycle w) :
    cycle.collector.settings = c.settings := by
  cases h <;> rfl

/-- A course either delivers nothing and leaves the mark and the store as they are, or it delivers
the rows of the first events of its poll, at least one, and moves the mark to the last of them. It
delivers nothing only if the poll fails or gives nothing, or a sink refuses. -/
theorem effect (h : Course c f store since cycle w) (hs : c.pollSince f.now = some since) :
    (c.takenRows f w.offers = [] ∧ cycle.collector.mark = c.mark ∧ w.store = store ∧
      (f.refusalFrom 0 c.settings.sinks = none → ∀ events, c.polled f since = .ok events →
        events = [])) ∨
      ∃ front back, c.polled f since = .ok (front ++ back) ∧ front ≠ [] ∧
        c.takenRows f w.offers = front.map c.settings.assembler.buildRow ∧
        cycle.collector.mark =
          ⟨c.mark.instanceName, Source.lastTime c.mark.value front⟩ := by
  have hdelivers {p : Payload} {row : Row} (hp : c.payload? f = some p)
      (haccepted : f.refusalFrom 0 c.settings.sinks = none)
      (hlast : p.rows.getLast? = some row) : ∃ front back,
        c.polled f since = .ok (front ++ back) ∧ front ≠ [] ∧
        c.takenRows f (f.offersFrom p 0 c.settings.sinks) =
          front.map c.settings.assembler.buildRow ∧
        row.time = Source.lastTime c.mark.value front := by
    obtain ⟨front, back, hpolled, hne, hrows⟩ := Collector.rows_of_payload hs hp
    refine ⟨front, back, hpolled, hne, ?_, ?_⟩
    · rw [Collector.takenRows_of_accepted hp haccepted, hrows]
    · exact Collector.time_of_last hrows hlast
  cases h with
  | sourceFails hpolled =>
      refine .inl ⟨?_, rfl, rfl, fun _ events hevents => ?_⟩
      · exact Collector.takenRows_of_no_payload (Collector.payload?_of_source_fails hs hpolled)
      · rw [hpolled] at hevents
        cases hevents
  | nothingNew hpolled =>
      refine .inl ⟨?_, rfl, rfl, fun _ events hevents => ?_⟩
      · exact Collector.takenRows_of_no_payload (Collector.payload?_of_nothing_new hs hpolled)
      · rw [hpolled] at hevents
        exact (Except.ok.inj hevents).symm
  | sinkRefuses hpayload hrefused =>
      exact .inl ⟨Collector.takenRows_of_refused hrefused, rfl, rfl,
        fun hnone => absurd (hrefused.symm.trans hnone) (Option.some_ne_none _)⟩
  | saveFails hpayload haccepted hlast hlater hdenied =>
      obtain ⟨front, back, hpolled, hne, hrows, htime⟩ := hdelivers hpayload haccepted hlast
      exact .inr ⟨front, back, hpolled, hne, hrows, by rw [← htime]; rfl⟩
  | saved hpolled hpayload haccepted hlast hlater hkept =>
      obtain ⟨front, back, hpolled, hne, hrows, htime⟩ := hdelivers hpayload haccepted hlast
      exact .inr ⟨front, back, hpolled, hne, hrows, by rw [← htime]; rfl⟩

end Course

end DeadlockCapture.Collection
