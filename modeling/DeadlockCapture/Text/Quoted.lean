import DeadlockCapture.Text.Hidden

/-!
Text shown between quotes in a message, so that it stays on one line and every character can be
read off.
-/

namespace DeadlockCapture.Text.Quoted

/-- Lower-case hexadecimal digits without padding. -/
def hex (n : Nat) : List Char :=
  Nat.toDigits 16 n

def escape (quote : Char) (c : Char) : List Char :=
  if c = '\x00' then ['\\', '0']
  else if c = '\t' then ['\\', 't']
  else if c = '\r' then ['\\', 'r']
  else if c = '\n' then ['\\', 'n']
  else if c = '\\' ∨ c = quote then ['\\', c]
  else if isHidden c then ['\\', 'u', '\x7b'] ++ hex c.toNat ++ ['\x7d']
  else [c]

def text (s : String) : String :=
  String.ofList ('"' :: s.toList.flatMap (escape '"') ++ ['"'])

def char (c : Char) : String :=
  String.ofList ('\'' :: escape '\'' c ++ ['\''])

end DeadlockCapture.Text.Quoted
