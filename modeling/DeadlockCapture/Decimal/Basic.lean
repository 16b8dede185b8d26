import DeadlockCapture.Decimal.Nearest
import DeadlockCapture.Text.Digits

/-!
Decimal numbers, the doubles nearest to them, and their text without an exponent.
-/

namespace DeadlockCapture

/-- The number `coefficient * 10 ^ exponent`. -/
structure Decimal where
  coefficient : Nat
  exponent : Int
deriving DecidableEq, Repr

namespace Decimal

/-- The double nearest to a decimal number. Beyond the range of doubles it is zero or infinite. -/
def toFloat (d : Decimal) : Float :=
  let magnitude : Int := ((Text.decimal d.coefficient).length : Int) + d.exponent
  if d.coefficient = 0 ∨ magnitude < -330 then 0.0
  else if 310 < magnitude then Float.ofBits (UInt64.ofNat infinityBits)
  else if 0 ≤ d.exponent then nearestQuotient (d.coefficient * Nat.pow 10 d.exponent.toNat) 1
  else nearestQuotient d.coefficient (Nat.pow 10 (-d.exponent).toNat)

def digits (d : Decimal) : List Char :=
  Text.decimal d.coefficient

/-- Where the decimal point stands, counted from the first digit. -/
def point (d : Decimal) : Int :=
  (d.digits.length : Int) + d.exponent

/-- The digits with a point among them, in front of them or zeros behind them. `whole` follows a
number without a fraction. -/
def positional (whole : List Char) (d : Decimal) : List Char :=
  if 0 ≤ d.exponent then d.digits ++ List.replicate d.exponent.toNat '0' ++ whole
  else if 0 < d.point then
    d.digits.take d.point.toNat ++ '.' :: d.digits.drop d.point.toNat
  else ['0', '.'] ++ List.replicate (-d.point).toNat '0' ++ d.digits

end Decimal

end DeadlockCapture
