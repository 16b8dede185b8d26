import DeadlockCapture.Text.Digits

/-!
Spans of time in nanoseconds and their text in the largest unit that is not greater.
-/

namespace DeadlockCapture.Time

/-- A span of time, never negative. -/
structure Span where
  nanos : Nat
deriving DecidableEq, Repr

namespace Span

def ofSeconds (n : Nat) : Span :=
  ⟨n * 1000000000⟩

def ofMillis (n : Nat) : Span :=
  ⟨n * 1000000⟩

/-- Digits of a fraction that has `width` places, without zeros at the end. -/
def places (width : Nat) (n : Nat) : List Char :=
  ((List.replicate (width - (Text.decimal n).length) '0' ++ Text.decimal n).reverse.dropWhile
    (· == '0')).reverse

/-- A count of units of `10 ^ width` nanoseconds. -/
def inUnits (width : Nat) (unit : List Char) (nanos : Nat) : List Char :=
  let fraction := nanos % Nat.pow 10 width
  Text.decimal (nanos / Nat.pow 10 width) ++
    (if fraction = 0 then [] else '.' :: places width fraction) ++ unit

def text (d : Span) : String :=
  String.ofList <|
    if 1000000000 ≤ d.nanos then inUnits 9 ['s'] d.nanos
    else if 1000000 ≤ d.nanos then inUnits 6 ['m', 's'] d.nanos
    else if 1000 ≤ d.nanos then inUnits 3 ['\u00b5', 's'] d.nanos
    else inUnits 0 ['n', 's'] d.nanos

def seconds (d : Span) : Float :=
  Float.ofNat (d.nanos / 1000000000) + Float.ofNat (d.nanos % 1000000000) / 1e9

end Span

end DeadlockCapture.Time
