import DeadlockCapture.Text.Blank
import DeadlockCapture.Text.Digits
import DeadlockCapture.Time.Calendar
import DeadlockCapture.Time.Instant

/-!
The text of an instant: date, the letter T, time of day, and Z for universal time. Reading is more
generous than writing: numbers need no zeros in front, blanks may stand before the parts, and the
time may be given for another zone.
-/

namespace DeadlockCapture.Time

open DeadlockCapture.Text

def daySeconds : Int :=
  86400

/-- A year in four digits; a year that needs more, or lies before year 0, has a sign. -/
def yearText (year : Int) : List Char :=
  if 0 ≤ year ∧ year ≤ 9999 then padded 4 year.toNat
  else (if year < 0 then '-' else '+') :: padded 4 year.natAbs

/-- The fraction of a second: nothing, or 3, 6 or 9 digits, the fewest that show it. -/
def fractionText (nano : Nat) : List Char :=
  if nano = 0 then []
  else if nano % 1000000 = 0 then '.' :: padded 3 (nano / 1000000)
  else if nano % 1000 = 0 then '.' :: padded 6 (nano / 1000)
  else '.' :: padded 9 nano

def Instant.chars (t : Instant) : List Char :=
  let date := Date.ofDay (t.second / daySeconds)
  let clock := (t.second % daySeconds).toNat
  let leap := if t.isLeap then 1 else 0
  yearText date.year ++ '-' :: padded 2 date.month ++ '-' :: padded 2 date.day ++
    'T' :: padded 2 (clock / 3600) ++ ':' :: padded 2 (clock / 60 % 60) ++
    ':' :: padded 2 (clock % 60 + leap) ++ fractionText (t.nano - leap * secondNanos) ++ ['Z']

def Instant.text (t : Instant) : String :=
  String.ofList t.chars

/-- One to `width` digits. -/
def number? (width : Nat) (s : List Char) : Option (Nat × List Char) :=
  let count := min width (digitRun s)
  if count = 0 then none else some (valueOf 10 (s.take count), s.drop count)

def twoDigits? (s : List Char) : Option (Nat × List Char) :=
  number? 2 (trimLeft s)

/-- A year after blanks: up to four digits, or any number of digits after a sign. -/
def year? (s : List Char) : Option (Int × List Char) :=
  match trimLeft s with
  | '-' :: r => (number? r.length r).map fun (n, t) => (-(n : Int), t)
  | '+' :: r => (number? r.length r).map fun (n, t) => ((n : Int), t)
  | r => (number? 4 r).map fun (n, t) => ((n : Int), t)

def mark? (mark : Char) (s : List Char) : Option (List Char) :=
  match trimLeft s with
  | c :: r => if c = mark then some r else none
  | [] => none

def date? (s : List Char) : Option (Date × List Char) := do
  let (year, s) ← year? s
  let s ← mark? '-' s
  let (month, s) ← twoDigits? s
  let s ← mark? '-' s
  let (day, s) ← twoDigits? s
  some (⟨year, month, day⟩, s)

/-- A fraction of a second in nanoseconds; digits after the ninth are dropped. -/
def fraction? (s : List Char) : Option (Nat × List Char) :=
  match s with
  | '.' :: r =>
    (number? 9 r).map fun (n, t) =>
      (n * Nat.pow 10 (9 - (r.length - t.length)), t.dropWhile Char.isDigit)
  | r => some (0, r)

structure Clock where
  hour : Nat
  minute : Nat
  second : Nat
  nano : Nat
deriving DecidableEq, Repr

/-- The time of day is one; second 60 is a leap second. -/
def Clock.exists (c : Clock) : Bool :=
  decide (c.hour < 24 ∧ c.minute < 60 ∧ c.second ≤ 60)

def clock? (s : List Char) : Option (Clock × List Char) := do
  let (hour, s) ← twoDigits? s
  let s ← mark? ':' s
  let (minute, s) ← twoDigits? s
  let s ← mark? ':' s
  let (second, s) ← twoDigits? s
  let (nano, s) ← fraction? s
  some (⟨hour, minute, second, nano⟩, s)

def digitPair? : List Char → Option (Nat × List Char)
  | a :: b :: r => if a.isDigit ∧ b.isDigit then some (valueOf 10 [a, b], r) else none
  | _ => none

/-- The sign of a zone: whether it lies west. The minus sign of mathematics will do. -/
def zoneSign? : List Char → Option (Bool × List Char)
  | '+' :: r => some (false, r)
  | '-' :: r => some (true, r)
  | '\u2212' :: r => some (true, r)
  | _ => none

def signedZone? (s : List Char) : Option (Int × List Char) := do
  let (west, s) ← zoneSign? s
  let (hours, s) ← digitPair? s
  let (minutes, s) ← digitPair? (s.dropWhile fun c => c == ':' || isBlank c)
  if minutes < 60 then
    let seconds : Int := hours * 3600 + minutes * 60
    some (if west then -seconds else seconds, s)
  else none

/-- A zone in seconds: the letter Z, the letters UTC, or hours and minutes after a sign. -/
def zone? (s : List Char) : Option (Int × List Char) :=
  let s := trimLeft s
  if (s.take 3).map Char.toUpper = ['U', 'T', 'C'] then some (0, s.drop 3)
  else
    match s with
    | 'Z' :: r => some (0, r)
    | 'z' :: r => some (0, r)
    | r => signedZone? r

def Instant.ofParts? (date : Date) (clock : Clock) (zone : Int) : Option Instant :=
  if date.exists ∧ clock.exists ∧ zone.natAbs < daySeconds.toNat then do
    let leap := if clock.second = 60 then 1 else 0
    let here : Int := date.toDay * daySeconds +
      (clock.hour * 3600 + clock.minute * 60 + (clock.second - leap) : Nat)
    let shown ← of? here (clock.nano + leap * secondNanos)
    of? (shown.second - zone) shown.nano
  else none

def Instant.ofText? (text : String) : Option Instant := do
  let (date, s) ← date? text.toList
  let s ← match s with
    | 'T' :: r => some r
    | 't' :: r => some r
    | ' ' :: r => some r
    | _ => none
  let (clock, s) ← clock? s
  let (zone, s) ← zone? s
  if (trimLeft s).isEmpty then Instant.ofParts? date clock zone else none

end DeadlockCapture.Time
