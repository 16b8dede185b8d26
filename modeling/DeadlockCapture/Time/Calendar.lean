/-!
The Gregorian calendar, continued to all years. Days are counted from 1970-01-01.
-/

namespace DeadlockCapture.Time

def isLeapYear (year : Int) : Bool :=
  year % 4 == 0 && (year % 100 != 0 || year % 400 == 0)

def yearStart (year : Int) : Int :=
  365 * year + (year - 1) / 4 - (year - 1) / 100 + (year - 1) / 400 - 719527

/-- The year that a day falls in. The mean length of years gives it up to one year. -/
def yearOf (day : Int) : Int :=
  let guess := (day + 719528) * 400 / 146097
  if day < yearStart guess then guess - 1
  else if yearStart (guess + 1) ≤ day then guess + 1
  else guess

def monthLengths (year : Int) : List Nat :=
  [31, if isLeapYear year then 29 else 28, 31, 30, 31, 30, 31, 31, 30, 31, 30, 31]

/-- A day by year, month and day of the month, both counted from 1. -/
structure Date where
  year : Int
  month : Nat
  day : Nat
deriving DecidableEq, Repr

def Date.exists (d : Date) : Bool :=
  d.month != 0 && d.day != 0 && ((monthLengths d.year)[d.month - 1]?).any (d.day ≤ ·)

def Date.toDay (d : Date) : Int :=
  yearStart d.year + ((monthLengths d.year).take (d.month - 1)).foldl Nat.add 0 + d.day - 1

/-- Finds the month of the `n`-th day of a year, counted from 0; `month` is the first of the months
whose lengths are given. -/
def monthOf (month : Nat) : List Nat → Nat → Nat × Nat
  | [], n => (month, n + 1)
  | length :: rest, n =>
    if n < length then (month, n + 1) else monthOf (month + 1) rest (n - length)

def Date.ofDay (day : Int) : Date :=
  let year := yearOf day
  let (month, dayOfMonth) := monthOf 1 (monthLengths year) (day - yearStart year).toNat
  ⟨year, month, dayOfMonth⟩

end DeadlockCapture.Time
