/-!
The character classes of XML 1.0, fifth edition.
-/

namespace DeadlockCapture.Xml

def isSpace (c : Char) : Bool :=
  c == ' ' || c == '\t' || c == '\n' || c == '\r'

def isAllowed (c : Char) : Bool :=
  if c.toNat < 0x20 then isSpace c else c.toNat != 0xFFFE && c.toNat != 0xFFFF

/-- A character that starts a name, the colon left aside. -/
def startsLocalName (c : Char) : Bool :=
  let n := c.toNat
  c.isAlpha || c == '_' ||
    (0xC0 ≤ n && n ≤ 0xD6) || (0xD8 ≤ n && n ≤ 0xF6) || (0xF8 ≤ n && n ≤ 0x2FF) ||
    (0x370 ≤ n && n ≤ 0x37D) || (0x37F ≤ n && n ≤ 0x1FFF) || (0x200C ≤ n && n ≤ 0x200D) ||
    (0x2070 ≤ n && n ≤ 0x218F) || (0x2C00 ≤ n && n ≤ 0x2FEF) || (0x3001 ≤ n && n ≤ 0xD7FF) ||
    (0xF900 ≤ n && n ≤ 0xFDCF) || (0xFDF0 ≤ n && n ≤ 0xFFFD) || (0x10000 ≤ n && n ≤ 0xEFFFF)

def inLocalName (c : Char) : Bool :=
  let n := c.toNat
  startsLocalName c || c.isDigit || c == '-' || c == '.' || n == 0xB7 ||
    (0x300 ≤ n && n ≤ 0x36F) || (0x203F ≤ n && n ≤ 0x2040)

def startsName (c : Char) : Bool :=
  c == ':' || startsLocalName c

def inName (c : Char) : Bool :=
  c == ':' || inLocalName c

def spaceRun (s : List Char) : Nat :=
  (s.takeWhile isSpace).length

end DeadlockCapture.Xml
