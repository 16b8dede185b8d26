/-!
Instants in universal time, to the nanosecond. A leap second is the second after the fifty-ninth:
it is kept as that second with more than a second's nanoseconds, so that it lies after the
fifty-ninth second and before the next minute.
-/

namespace DeadlockCapture.Time

def firstSecond : Int :=
  -8334601228800

def lastSecond : Int :=
  8210266876799

def secondNanos : Nat :=
  1000000000

/-- An instant: the second, counted from 1970-01-01, and the nanoseconds after its start. -/
structure Instant where
  second : Int
  nano : Nat
  first_le : firstSecond ≤ second := by decide
  le_last : second ≤ lastSecond := by decide
  nano_lt : nano < 2 * secondNanos := by decide
  /-- Only the last second of a minute is followed by a leap second. -/
  leap_last : secondNanos ≤ nano → second % 60 = 59 := by decide
deriving DecidableEq

namespace Instant

/-- The instant at a second and its nanoseconds, if there is one. -/
def of? (second : Int) (nano : Nat) : Option Instant :=
  if h : firstSecond ≤ second ∧ second ≤ lastSecond ∧ nano < 2 * secondNanos ∧
      (secondNanos ≤ nano → second % 60 = 59) then
    some ⟨second, nano, h.1, h.2.1, h.2.2.1, h.2.2.2⟩
  else none

def epoch : Instant :=
  { second := 0, nano := 0 }

/-- A number that orders instants. -/
def rank (t : Instant) : Int :=
  t.second * (2 * secondNanos) + t.nano

instance : LT Instant := ⟨fun s t => s.rank < t.rank⟩

instance : LE Instant := ⟨fun s t => s.rank ≤ t.rank⟩

instance (s t : Instant) : Decidable (s < t) :=
  inferInstanceAs (Decidable (s.rank < t.rank))

instance (s t : Instant) : Decidable (s ≤ t) :=
  inferInstanceAs (Decidable (s.rank ≤ t.rank))

theorem rank_inj {s t : Instant} : s.rank = t.rank ↔ s = t := by
  constructor
  · intro h
    have hs := s.nano_lt
    have ht := t.nano_lt
    simp only [rank, secondNanos] at h hs ht
    have hsec : s.second = t.second := by omega
    have hnano : s.nano = t.nano := by omega
    cases s
    cases t
    simp_all
  · rintro rfl
    rfl

def later (s t : Instant) : Instant :=
  if s ≤ t then t else s

def isLeap (t : Instant) : Bool :=
  decide (secondNanos ≤ t.nano)

/-- The instant that lies a number of nanoseconds later. A way that starts in a leap second and
stays within it counts the leap second, every other way leaves it out. -/
def shift? (t : Instant) (nanos : Int) : Option Instant :=
  let seconds := nanos.tdiv secondNanos
  let rest := nanos.tmod secondNanos
  let total : Int := t.second * secondNanos + t.nano + nanos
  let leaves := 0 < seconds ∨ (0 < rest ∧ 2 * (secondNanos : Int) ≤ t.nano + rest)
  if t.isLeap ∧ ¬ leaves ∧ seconds = 0 then of? t.second (t.nano + rest).toNat
  else
    let total := if t.isLeap ∧ leaves then total - secondNanos else total
    of? (total / secondNanos) (total % secondNanos).toNat

end Instant

end DeadlockCapture.Time
