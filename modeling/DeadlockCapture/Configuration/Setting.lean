import DeadlockCapture.Bounds
import DeadlockCapture.Decimal.Reading
import DeadlockCapture.Decimal.Shortest
import DeadlockCapture.Text.Lower

/-!
Values of settings, and what each of them can stand for. A value of one kind often will do for
another: the text `yes` is a truth value, and a number is a text.
-/

namespace DeadlockCapture.Configuration

inductive Setting where
  /-- A place in a list that nothing has been put into. -/
  | absent
  | bool (b : Bool)
  | whole (n : Int)
  | real (x : Float)
  | text (s : String)
  | list (items : List Setting)
  | table (members : List (String × Setting))
deriving Inhabited

namespace Setting

def boolOfWord? (s : String) : Option Bool :=
  let word := String.ofList (Text.lower s.toList)
  if word = "true" ∨ word = "on" ∨ word = "yes" then some true
  else if word = "false" ∨ word = "off" ∨ word = "no" then some false
  else none

def bool? : Setting → Option Bool
  | .bool b => some b
  | .whole n => some (n ≠ 0)
  | .real x => some (x != 0.0)
  | .text "1" => some true
  | .text "0" => some false
  | .text s => boolOfWord? s
  | .absent | .list _ | .table _ => none

def naturalOfText? (s : String) : Option Nat :=
  (boolOfWord? s).map Bool.toNat <|> Text.unsigned? uint64Max s.toList

/-- The natural number of a setting. A number with a fraction is rounded, a half away from zero. -/
def natural? : Setting → Option Nat
  | .bool b => some b.toNat
  | .whole n => if 0 ≤ n then some n.toNat else none
  | .real x => some x.round.toUInt64.toNat
  | .text s => naturalOfText? s
  | .absent | .list _ | .table _ => none

def text? : Setting → Option String
  | .text s => some s
  | .bool b => some (if b then "true" else "false")
  | .whole n => some (String.ofList ((if n < 0 then ['-'] else []) ++ Text.decimal n.natAbs))
  | .real x => some (String.ofList (Decimal.plainText x))
  | .absent | .list _ | .table _ => none

end Setting

end DeadlockCapture.Configuration
