import DeadlockCapture.Decimal.Basic

/-!
The shortest decimal number that reads back as a given double, and of several the nearest.
-/

namespace DeadlockCapture.Decimal

/-- A finite positive double `significand * 2 ^ exponent` and the decimals that round to it. -/
structure Binary where
  significand : Nat
  exponent : Int
  /-- The double below is only half as far away as the one above. -/
  closeBelow : Bool

/-- The finite double with the given bits, its sign left out. -/
def Binary.ofBits (bits : Nat) : Binary :=
  let fraction : Nat := bits % Nat.pow 2 52
  let biased : Nat := bits / Nat.pow 2 52 % 2048
  if biased = 0 then ⟨fraction, -1074, false⟩
  else ⟨Nat.pow 2 52 + fraction, (biased : Int) - 1075, decide (fraction = 0 ∧ 1 < biased)⟩

/-- The doubles' numerators over a common denominator: the value and the ends of the interval. -/
structure Interval where
  value : Nat
  lower : Nat
  upper : Nat
  denominator : Nat
  closed : Bool

/-- The decimals that round to a double, in quarters of its last bit. -/
def Binary.interval (b : Binary) : Interval :=
  let scale := Nat.pow 2 b.exponent.toNat
  { value := 4 * b.significand * scale
    lower := (4 * b.significand - (if b.closeBelow then 1 else 2)) * scale
    upper := (4 * b.significand + 2) * scale
    denominator := 4 * Nat.pow 2 (-b.exponent).toNat
    closed := b.significand % 2 == 0 }

/-- Whether `n` steps of size `num / den` fall into the interval. -/
def Interval.holds (i : Interval) (n num den : Nat) : Bool :=
  let point := n * num * i.denominator
  let lower := i.lower * den
  let upper := i.upper * den
  if i.closed then decide (lower ≤ point) && decide (point ≤ upper)
  else decide (lower < point) && decide (point < upper)

/-- Which of two decimals stands for a double that is equally far from both. -/
inductive Tie where
  | toEven
  | upward
deriving DecidableEq, Repr

/-- The neighbour of the value on the grid of steps `10 ^ e` that falls into the interval, the
nearer of two. -/
def Interval.onGrid (i : Interval) (tie : Tie) (e : Int) : Option Nat :=
  let num := Nat.pow 10 e.toNat
  let den := Nat.pow 10 (-e).toNat
  let below := i.value * den / (num * i.denominator)
  let rest := i.value * den - below * num * i.denominator
  let above := below + 1
  match i.holds below num den, i.holds above num den with
  | true, true =>
    if 2 * rest < num * i.denominator then some below
    else if num * i.denominator < 2 * rest then some above
    else if tie = .toEven ∧ below % 2 = 0 then some below
    else some above
  | true, false => some below
  | false, true => some above
  | false, false => none

/-- Tries ever finer grids, from `e` downwards. -/
def Interval.search (i : Interval) (tie : Tie) : Nat → Int → Decimal
  | 0, e => ⟨i.value * Nat.pow 10 (-e).toNat / (i.denominator * Nat.pow 10 e.toNat), e⟩
  | n + 1, e =>
    match i.onGrid tie e with
    | some c => if c = 0 then i.search tie n (e - 1) else ⟨c, e⟩
    | none => i.search tie n (e - 1)

def reduced : Nat → Decimal → Decimal
  | 0, d => d
  | n + 1, d =>
    if d.coefficient ≠ 0 ∧ d.coefficient % 10 = 0 then
      reduced n ⟨d.coefficient / 10, d.exponent + 1⟩
    else d

/-- The shortest decimal for the finite double with the given bits. -/
def shortest (tie : Tie) (bits : Nat) : Decimal :=
  let b := Binary.ofBits bits
  if b.significand = 0 then ⟨0, 0⟩
  else
    let magnitude : Int := ((b.significand.log2 : Int) + b.exponent) * 30103 / 100000
    reduced 25 (b.interval.search tie 25 (magnitude + 1))

/-- The kinds of doubles that are written differently. -/
inductive FloatShape where
  | notNumber
  | infinite (negative : Bool)
  | finite (negative : Bool) (magnitude : Decimal)

def FloatShape.of (tie : Tie) (x : Float) : FloatShape :=
  let bits := x.toBits.toNat
  let negative := decide (Nat.pow 2 63 ≤ bits)
  let magnitude := bits % Nat.pow 2 63
  if infinityBits < magnitude then .notNumber
  else if magnitude = infinityBits then .infinite negative
  else .finite negative (shortest tie magnitude)

/-- The text of a double without an exponent. Of two equally near decimals it shows the greater. -/
def plainText (x : Float) : List Char :=
  match FloatShape.of .upward x with
  | .notNumber => ['N', 'a', 'N']
  | .infinite negative => (if negative then ['-'] else []) ++ ['i', 'n', 'f']
  | .finite negative d => (if negative then ['-'] else []) ++ d.positional []

/-- The text of a double that always shows that it is one: it has a point or an exponent. Numbers
from `1e-5` up to below `1e16` are written without an exponent. Of two equally near decimals it
shows the even one. -/
def scientificText (x : Float) : List Char :=
  match FloatShape.of .toEven x with
  | .notNumber | .infinite _ => ['n', 'u', 'l', 'l']
  | .finite negative d =>
    let sign := if negative then ['-'] else []
    if d.coefficient = 0 then sign ++ ['0', '.', '0']
    else if -5 < d.point ∧ d.point ≤ 16 then sign ++ d.positional ['.', '0']
    else
      let power := d.point - 1
      let mark := if power < 0 then '-' else '+'
      let fraction := d.digits.tail
      sign ++ d.digits.take 1 ++ (if fraction.isEmpty then [] else '.' :: fraction) ++
        'e' :: mark :: Text.decimal power.natAbs

end DeadlockCapture.Decimal
