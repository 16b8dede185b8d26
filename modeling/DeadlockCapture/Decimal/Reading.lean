import DeadlockCapture.Decimal.Basic
import DeadlockCapture.Text.Lower

/-!
Doubles as people write them: digits with an optional sign, point and exponent, or a word for what
is not finite.
-/

namespace DeadlockCapture.Decimal

inductive ReadFault where
  | empty
  | malformed
deriving DecidableEq, Repr

def ReadFault.message : ReadFault → String
  | .empty => "cannot parse float from empty string"
  | .malformed => "invalid float literal"

/-- A sign in front: whether it is a minus, and what follows. -/
def splitSign : List Char → Bool × List Char
  | '-' :: r => (true, r)
  | '+' :: r => (false, r)
  | s => (false, s)

def exponent? : List Char → Option Int
  | [] => some 0
  | c :: r =>
    if c = 'e' ∨ c = 'E' then
      let (negative, digits) := splitSign r
      (Text.natural? digits).map fun n => if negative then -(n : Int) else n
    else none

/-- A number without a sign. There is a digit before or after the point. -/
def unsigned? (s : List Char) : Option Decimal :=
  let whole := s.takeWhile Char.isDigit
  let rest := s.dropWhile Char.isDigit
  let (fraction, rest) := match rest with
    | '.' :: r => (r.takeWhile Char.isDigit, r.dropWhile Char.isDigit)
    | r => ([], r)
  if whole.isEmpty ∧ fraction.isEmpty then none
  else (exponent? rest).map fun e => ⟨Text.valueOf 10 (whole ++ fraction), e - fraction.length⟩

/-- The double that a word or a number without a sign stands for. -/
def magnitude? (s : List Char) : Option Float :=
  let word := String.ofList (Text.lower s)
  if word = "inf" ∨ word = "infinity" then some (1.0 / 0.0)
  else if word = "nan" then some (0.0 / 0.0)
  else (unsigned? s).map toFloat

def read (s : List Char) : Except ReadFault Float :=
  if s.isEmpty then .error .empty
  else
    let (negative, rest) := splitSign s
    match magnitude? rest with
    | some x => .ok (if negative then -x else x)
    | none => .error .malformed

end DeadlockCapture.Decimal
