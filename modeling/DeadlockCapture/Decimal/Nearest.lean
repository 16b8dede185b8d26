/-!
The double nearest to a rational number. A number halfway between two doubles goes to the one with
the even last bit.
-/

namespace DeadlockCapture.Decimal

/-- The quotient of two naturals, rounded to the nearest natural; a half goes to the even one. -/
def roundQuotient (num den : Nat) : Nat :=
  let q := num / den
  let r := num % den
  if 2 * r < den then q
  else if den < 2 * r then q + 1
  else if q % 2 = 0 then q else q + 1

/-- The power of two by which a positive quotient is divided to leave 53 bits, at least -1074. -/
def binaryExponent (num den : Nat) : Int :=
  let guess : Int := (num.log2 : Int) - (den.log2 : Int) - 52
  let scaled : Nat := if 0 ≤ guess then num / (den * Nat.pow 2 guess.toNat)
    else num * Nat.pow 2 (-guess).toNat / den
  max (-1074) (if scaled < Nat.pow 2 52 then guess - 1 else guess)

def infinityBits : Nat :=
  0x7FF * Nat.pow 2 52

def nearestBits (num den : Nat) : Nat :=
  if num = 0 then 0
  else
    let e := binaryExponent num den
    let q := if 0 ≤ e then roundQuotient num (den * Nat.pow 2 e.toNat)
      else roundQuotient (num * Nat.pow 2 (-e).toNat) den
    min infinityBits ((e + 1074).toNat * Nat.pow 2 52 + q)

def nearestQuotient (num den : Nat) : Float :=
  Float.ofBits (UInt64.ofNat (nearestBits num den))

end DeadlockCapture.Decimal
