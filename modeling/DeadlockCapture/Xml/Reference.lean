import DeadlockCapture.Bounds
import DeadlockCapture.Text.Digits
import DeadlockCapture.Xml.Character
import DeadlockCapture.Xml.Fault

/-!
References and the ends of lines: how the characters between tags and between quotes are read, and
how a text is written so that it is read back. A carriage return ends a line, alone or before a line
feed, and is read as a line feed once an ordinary character or the end of the text follows. What
comes from a reference is left as it is, and so is the character after it.
-/

namespace DeadlockCapture.Xml

open DeadlockCapture.Text

/-- The character that a number stands for, if it may stand in a document. A number that is no
character stands for the replacement character. -/
def numberedChar? (n : Nat) : Option Char :=
  if uint32Max < n then none
  else
    let c := if n.isValidChar then Char.ofNat n else '\uFFFD'
    if isAllowed c then some c else none

def namedChar? (name : List Char) : Option Char :=
  if name = ['q', 'u', 'o', 't'] then some '"'
  else if name = ['a', 'm', 'p'] then some '&'
  else if name = ['a', 'p', 'o', 's'] then some '\x27'
  else if name = ['l', 't'] then some '<'
  else if name = ['g', 't'] then some '>'
  else none

inductive Reference where
  | char (c : Char)
  | unknown (name : List Char)
deriving DecidableEq, Repr

/-- The character named by digits, and how many characters name it. -/
def numbered? (base skip : Nat) (digits : List Char) : Option (Reference × Nat) :=
  if digits.isEmpty then none
  else (numberedChar? (valueOf base digits)).map fun c => (.char c, skip + digits.length)

/-- What stands between the ampersand and the semicolon of a reference, and its length. -/
def referenceBody? : List Char → Option (Reference × Nat)
  | '#' :: 'x' :: r => numbered? 16 2 (r.takeWhile isHexDigit)
  | '#' :: r => numbered? 10 1 (r.takeWhile Char.isDigit)
  | c :: r =>
    if startsName c then
      let name := c :: r.takeWhile inName
      match namedChar? name with
      | some d => some (.char d, name.length)
      | none => some (.unknown name, name.length)
    else none
  | [] => none

/-- The reference after an ampersand, and its length with the semicolon. -/
def reference? (s : List Char) : Option (Reference × Nat) :=
  match referenceBody? s with
  | some (ref, n) => if (s.drop n).head? = some ';' then some (ref, n + 1) else none
  | none => none

/-- A character as it is read: from a reference, or as it stands. -/
inductive Glyph where
  | referred (c : Char)
  | written (c : Char)
deriving DecidableEq, Repr

/-- The characters of a text that starts at an offset, its references resolved. -/
def glyphsFrom (offset : Nat) : List Char → Except Fault (List Glyph)
  | [] => .ok []
  | c :: r =>
    if c = '&' then
      match reference? r with
      | some (.char d, n) => (glyphsFrom (offset + 1 + n) (r.drop n)).map (.referred d :: ·)
      | some (.unknown name, _) => .error ⟨.unknownReference (String.ofList name), offset⟩
      | none => .error ⟨.malformedReference, offset⟩
    else (glyphsFrom (offset + 1) r).map (.written c :: ·)
termination_by s => s.length
decreasing_by all_goals simp only [List.length_drop, List.length_cons]; omega

/-- The text of glyphs with the ends of lines made line feeds. `kept` says that the glyph before was
a reference, `ended` that it was a carriage return that still waits for what follows. -/
def lineEnds (kept ended : Bool) : List Glyph → List Char
  | [] => if ended then ['\r'] else []
  | .referred c :: r => (if ended then ['\r'] else []) ++ c :: lineEnds true false r
  | .written c :: r =>
    if kept then
      if c = '\r' then lineEnds false true r else c :: lineEnds false false r
    else if c = '\r' then
      let front := if ended then ['\n'] else []
      if r.isEmpty then front ++ ['\n'] else front ++ lineEnds false true r
    else if ended then (if c = '\n' then ['\n'] else ['\n', c]) ++ lineEnds false false r
    else c :: lineEnds false false r

/-- The text between tags that starts at an offset. -/
def contentText (offset : Nat) (raw : List Char) : Except Fault (List Char) :=
  (glyphsFrom offset raw).map (lineEnds false false)

def sectionText (raw : List Char) : List Char :=
  lineEnds false false (raw.map .written)

/-- The value between quotes: blanks become spaces, a carriage return before a line feed nothing. -/
def valueChars : List Glyph → List Char
  | [] => []
  | .referred c :: r => c :: valueChars r
  | .written c :: r =>
    if c = '\r' ∧ r.head? = some (.written '\n') then valueChars r
    else (if c = '\n' ∨ c = '\r' ∨ c = '\t' then ' ' else c) :: valueChars r

/-- The value between quotes that starts at an offset. -/
def attributeText (offset : Nat) (raw : List Char) : Except Fault (List Char) :=
  (glyphsFrom offset raw).map valueChars

/-- A character written so that it is not taken for markup. -/
def escapeChar (c : Char) : List Char :=
  if c = '&' then ['&', 'a', 'm', 'p', ';']
  else if c = '<' then ['&', 'l', 't', ';']
  else if c = '>' then ['&', 'g', 't', ';']
  else [c]

/-- A text written so that nothing in it is taken for markup. -/
def escapeText (s : List Char) : List Char :=
  s.flatMap escapeChar

end DeadlockCapture.Xml
