import DeadlockCapture.Configuration.Setting
import DeadlockCapture.Time.Calendar
import DeadlockCapture.Toml.Text

/-!
Truth values, numbers, dates and times of TOML. Each is a run of letters, digits and a few marks;
only a date may be set apart from its time by a space.
-/

namespace DeadlockCapture.Toml

open DeadlockCapture.Configuration (Setting)
open DeadlockCapture.Text

def isScalarChar (c : Char) : Bool :=
  c.isAlphanum || c == '+' || c == '-' || c == '.' || c == ':' || c == '_'

def plainDigits? (isDigit : Char → Bool) : List Char → Option (List Char)
  | [] => none
  | [c] => if isDigit c then some [c] else none
  | c :: '_' :: r => if isDigit c then (plainDigits? isDigit r).map (c :: ·) else none
  | c :: r => if isDigit c then (plainDigits? isDigit r).map (c :: ·) else none

/-- Decimal digits of a whole number: a zero stands in front only by itself. -/
def wholeDigits? (s : List Char) : Option (List Char) :=
  (plainDigits? Char.isDigit s).filter fun d => d.head? ≠ some '0' || d.length == 1

/-- A number of 64 bits with a sign. -/
def bounded? (n : Int) : Option Setting :=
  if int64Min ≤ n ∧ n ≤ int64Max then some (.whole n) else none

def isDigitOf (base : Nat) (c : Char) : Bool :=
  (hexValue? c).any (· < base)

def inBase? (base : Nat) (s : List Char) : Option Setting :=
  (plainDigits? (isDigitOf base) s).bind fun d => bounded? (valueOf base d)

def integer? : List Char → Option Setting
  | '0' :: 'x' :: r => inBase? 16 r
  | '0' :: 'o' :: r => inBase? 8 r
  | '0' :: 'b' :: r => inBase? 2 r
  | s =>
    let (negative, digits) := Decimal.splitSign s
    (wholeDigits? digits).bind fun d =>
      bounded? (if negative then -(valueOf 10 d : Int) else valueOf 10 d)

/-- An exponent with its letter, without underscores; nothing is an exponent too. -/
def scale? : List Char → Option (List Char)
  | [] => some []
  | c :: r =>
    if c = 'e' ∨ c = 'E' then
      let (negative, digits) := Decimal.splitSign r
      (plainDigits? Char.isDigit digits).map fun d => 'e' :: (if negative then '-' :: d else d)
    else none

/-- A fraction with its point and maybe an exponent, or only an exponent, without underscores. -/
def fraction? : List Char → Option (List Char)
  | [] => none
  | '.' :: r =>
    let isPart (c : Char) : Bool := c.isDigit || c == '_'
    match plainDigits? Char.isDigit (r.takeWhile isPart), scale? (r.dropWhile isPart) with
    | some d, some e => some ('.' :: (d ++ e))
    | _, _ => none
  | r => scale? r

/-- A double without a sign, as digits with a fraction or an exponent. -/
def unsignedReal? (s : List Char) : Option Float :=
  let isPart (c : Char) : Bool := c.isDigit || c == '_'
  match wholeDigits? (s.takeWhile isPart), fraction? (s.dropWhile isPart) with
  | some d, some rest => ((Decimal.unsigned? (d ++ rest)).map Decimal.toFloat).filter (·.isFinite)
  | _, _ => none

def real? (s : List Char) : Option Setting :=
  let (negative, rest) := Decimal.splitSign s
  let magnitude := match rest with
    | ['i', 'n', 'f'] => some (1.0 / 0.0)
    | ['n', 'a', 'n'] => some (0.0 / 0.0)
    | r => unsignedReal? r
  magnitude.map fun x => .real (if negative then -x else x)

/-- A number of some digits up to a bound, and the mark after it. -/
def part? (width bound : Nat) (s : List Char) : Option (Nat × List Char) :=
  (natural? (s.take width)).bind fun n =>
    if (s.take width).length = width ∧ n ≤ bound then some (n, s.drop width) else none

def after? (mark : Char) : List Char → Option (List Char)
  | c :: r => if c = mark then some r else none
  | [] => none

def date? (s : List Char) : Option (List Char × List Char) := do
  let (year, r) ← part? 4 9999 s
  let (month, r) ← part? 2 12 (← after? '-' r)
  let (day, r) ← part? 2 31 (← after? '-' r)
  if (Time.Date.mk year month day).exists then some (s.take 10, r) else none

/-- The fraction of a second, cut after nine digits and without zeros at the end, of which one stays
when there is no other digit. -/
def secondFraction? : List Char → Option (List Char × List Char)
  | '.' :: r =>
    let digits := r.takeWhile Char.isDigit
    let kept := ((digits.take 9).reverse.dropWhile (· == '0')).reverse
    if digits.isEmpty then none
    else some ('.' :: (if kept.isEmpty then ['0'] else kept), r.drop digits.length)
  | r => some ([], r)

/-- The seconds of a time of day and their fraction, which may be left out. -/
def seconds? : List Char → Option (List Char × List Char)
  | ':' :: s => do
    let (_, r) ← part? 2 60 s
    let (fraction, r) ← secondFraction? r
    some (':' :: (s.take 2 ++ fraction), r)
  | r => some ([], r)

def time? (s : List Char) : Option (List Char × List Char) := do
  let (_, r) ← part? 2 23 s
  let (_, r) ← part? 2 59 (← after? ':' r)
  let (seconds, r) ← seconds? r
  some (s.take 5 ++ seconds, r)

/-- A zone: the letter Z, or hours and minutes after a sign. -/
def zone? (s : List Char) : Option (List Char) :=
  match s with
  | ['Z'] => some ['Z']
  | ['z'] => some ['Z']
  | sign :: r => do
    let (hours, t) ← part? 2 23 r
    let (minutes, rest) ← part? 2 59 (← after? ':' t)
    let sign := if hours = 0 ∧ minutes = 0 then '+' else sign
    if (s.head? = some '+' ∨ s.head? = some '-') ∧ rest.isEmpty then some (sign :: r.take 5)
    else none
  | [] => none

/-- A date with a time, and maybe a zone, after the mark between them. -/
def timeAndZone? (date s : List Char) : Option (List Char) := do
  let (time, r) ← time? s
  let zone ← if r.isEmpty then some [] else zone? r
  some (date ++ 'T' :: time ++ zone)

/-- A date, a time or both. Its value is its text in the usual form. -/
def dateTime? (s : List Char) : Option (List Char) :=
  match date? s with
  | none =>
    match time? s with
    | some (time, []) => some time
    | _ => none
  | some (date, []) => some date
  | some (date, mark :: r) =>
    if mark = 'T' ∨ mark = 't' ∨ mark = ' ' then timeAndZone? date r else none

def scalarOf? (s : List Char) : Option Setting :=
  if s = ['t', 'r', 'u', 'e'] then some (.bool true)
  else if s = ['f', 'a', 'l', 's', 'e'] then some (.bool false)
  else integer? s <|> real? s <|> (dateTime? s).map fun t => .text (String.ofList t)

/-- The length of a scalar: a date with a time after a space is one. -/
def scalarLength (s : List Char) : Nat :=
  let token := s.takeWhile isScalarChar
  let isDate := (date? token).any (·.2.isEmpty)
  match s.drop token.length with
  | ' ' :: r =>
    if isDate ∧ (r.takeWhile Char.isDigit).length = 2 ∧ r[2]? = some ':' then
      token.length + 1 + (r.takeWhile isScalarChar).length
    else token.length
  | _ => token.length

def scalar (s : List Char) : Found Setting :=
  (scalarOf? (s.take (scalarLength s))).map fun v => (v, s.drop (scalarLength s))

end DeadlockCapture.Toml
