/-!
Whole numbers in decimal digits. Only the ten ASCII digits count as digits here.
-/

namespace DeadlockCapture.Text

/-- The value of one hexadecimal digit, in either case. -/
def hexValue? (c : Char) : Option Nat :=
  if '0' ≤ c ∧ c ≤ '9' then some (c.toNat - 0x30)
  else if 'a' ≤ c ∧ c ≤ 'f' then some (c.toNat - 0x61 + 10)
  else if 'A' ≤ c ∧ c ≤ 'F' then some (c.toNat - 0x41 + 10)
  else none

/-- A hexadecimal digit, in either case. -/
def isHexDigit (c : Char) : Bool :=
  (hexValue? c).isSome

/-- The value of a run of digits in a base, read from the left; other characters count as 0. -/
def valueOf (base : Nat) (digits : List Char) : Nat :=
  digits.foldl (fun n c => n * base + (hexValue? c).getD 0) 0

def digitRun (s : List Char) : Nat :=
  (s.takeWhile Char.isDigit).length

/-- Reads a text that consists of one or more decimal digits. -/
def natural? (s : List Char) : Option Nat :=
  if s.isEmpty || s.any (fun c => !c.isDigit) then none else some (valueOf 10 s)

/-- Reads a whole number without a minus sign that does not exceed a bound. -/
def unsigned? (bound : Nat) (s : List Char) : Option Nat :=
  let digits := match s with
    | '+' :: r => r
    | r => r
  (natural? digits).filter (· ≤ bound)

/-- Reads a whole number with an optional sign that lies between two bounds. -/
def signed? (least greatest : Int) (s : List Char) : Option Int :=
  let value := match s with
    | '-' :: r => (natural? r).map fun n => -(n : Int)
    | '+' :: r => (natural? r).map fun n => (n : Int)
    | r => (natural? r).map fun n => (n : Int)
  value.filter fun n => least ≤ n ∧ n ≤ greatest

/-- The decimal digits of a number, without leading zeros. -/
def decimal (n : Nat) : List Char :=
  Nat.toDigits 10 n

/-- The digits of a number filled up with zeros to a width. -/
def padded (width : Nat) (n : Nat) : List Char :=
  let digits := decimal n
  List.replicate (width - digits.length) '0' ++ digits

/-- The number of bytes of a text in UTF-8. -/
def utf8Length (s : List Char) : Nat :=
  s.foldr (fun c n => c.utf8Size + n) 0

end DeadlockCapture.Text
