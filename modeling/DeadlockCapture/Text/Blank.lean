/-!
Blank characters, those with the property White_Space, and trimming.
-/

namespace DeadlockCapture.Text

/-- The property White_Space. -/
def isBlank (c : Char) : Bool :=
  let n := c.toNat
  (9 ≤ n && n ≤ 13) || n == 0x20 || n == 0x85 || n == 0xA0 || n == 0x1680 ||
    (0x2000 ≤ n && n ≤ 0x200A) || n == 0x2028 || n == 0x2029 || n == 0x202F || n == 0x205F ||
    n == 0x3000

def trimLeft (s : List Char) : List Char :=
  s.dropWhile isBlank

def trimRight (s : List Char) : List Char :=
  (s.reverse.dropWhile isBlank).reverse

def trim (s : List Char) : List Char :=
  trimRight (trimLeft s)

def trimmed (s : String) : String :=
  String.ofList (trim s.toList)

def allBlank (s : String) : Bool :=
  s.toList.all isBlank

end DeadlockCapture.Text
