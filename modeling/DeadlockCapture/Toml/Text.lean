import DeadlockCapture.Text.Digits

/-!
Quoted texts of TOML: on one line or on several, with escapes or literal. Each reader starts after
the opening quotes and gives the text and what follows the closing quotes.
-/

namespace DeadlockCapture.Toml

open DeadlockCapture.Text

/-- What a reader finds, and the rest. -/
abbrev Found (α : Type) := Option (α × List Char)

/-- The characters that may stand in texts and comments: the tab and all that are no control
characters of ASCII. -/
def isShown (c : Char) : Bool :=
  c == '\t' || (0x20 ≤ c.toNat && c.toNat != 0x7f)

def isSpace (c : Char) : Bool :=
  c == ' ' || c == '\t'

def afterBreak? : List Char → Option (List Char)
  | '\n' :: r => some r
  | '\r' :: '\n' :: r => some r
  | _ => none

/-- A character given by its number in hexadecimal digits. -/
def codePoint? (width : Nat) (s : List Char) : Option (Char × Nat) :=
  let digits := s.take width
  let n := valueOf 16 digits
  if digits.length = width ∧ digits.all isHexDigit ∧ n.isValidChar then
    some (Char.ofNat n, width + 1)
  else none

/-- The character of an escape after its backslash, and how many characters it takes. -/
def escape? : List Char → Option (Char × Nat)
  | 'b' :: _ => some ('\x08', 1)
  | 'e' :: _ => some ('\x1b', 1)
  | 't' :: _ => some ('\t', 1)
  | 'n' :: _ => some ('\n', 1)
  | 'f' :: _ => some ('\x0c', 1)
  | 'r' :: _ => some ('\r', 1)
  | '"' :: _ => some ('"', 1)
  | '\\' :: _ => some ('\\', 1)
  | 'x' :: r => codePoint? 2 r
  | 'u' :: r => codePoint? 4 r
  | 'U' :: r => codePoint? 8 r
  | _ => none

def push (c : Char) (found : Found (List Char)) : Found (List Char) :=
  found.map fun (text, rest) => (c :: text, rest)

def basicText : List Char → Found (List Char)
  | [] => none
  | c :: r =>
    if c = '"' then some ([], r)
    else if c = '\\' then
      match escape? r with
      | some (e, n) => push e (basicText (r.drop n))
      | none => none
    else if isShown c then push c (basicText r)
    else none
termination_by s => s.length
decreasing_by all_goals simp only [List.length_drop, List.length_cons]; omega

def literalText (s : List Char) : Found (List Char) :=
  let text := s.takeWhile fun c => isShown c && c != '\x27'
  match s.drop text.length with
  | '\x27' :: r => some (text, r)
  | _ => none

/-- How many characters a backslash at the end of a line hides: the blanks after it, the line break,
and all blanks and line breaks that follow. -/
def hiddenBreak? (s : List Char) : Option Nat :=
  let rest := s.dropWhile isSpace
  match afterBreak? rest with
  | none => none
  | some r => some (s.length - (skip r.length r).length)
where
  skip : Nat → List Char → List Char
    | 0, r => r
    | n + 1, r =>
      match afterBreak? (r.dropWhile isSpace) with
      | some r => skip n r
      | none => r.dropWhile isSpace

/-- The quotes in front, of which a text on several lines ends with three. Up to two more before
them belong to it. -/
def quoteRun (quote : Char) (s : List Char) : Nat :=
  min 5 (s.takeWhile (· == quote)).length

/-- A text on several lines, whose breaks belong to it as they are written; `escapes` says whether a
backslash is special. -/
def blockText (quote : Char) (escapes : Bool) : List Char → Found (List Char)
  | [] => none
  | c :: r =>
    if c = quote then
      let run := quoteRun quote (c :: r)
      if 3 ≤ run then some (List.replicate (run - 3) quote, (c :: r).drop run)
      else push c (blockText quote escapes r)
    else if c = '\\' ∧ escapes = true then
      match hiddenBreak? r with
      | some n => blockText quote escapes (r.drop n)
      | none =>
        match escape? r with
        | some (e, n) => push e (blockText quote escapes (r.drop n))
        | none => none
    else if isShown c ∨ c = '\n' then push c (blockText quote escapes r)
    else if c = '\r' ∧ r.head? = some '\n' then push c (blockText quote escapes r)
    else none
termination_by s => s.length
decreasing_by all_goals simp only [List.length_drop, List.length_cons]; omega

/-- A text on several lines; a line break right after the opening quotes does not count. -/
def openedBlock (quote : Char) (escapes : Bool) (s : List Char) : Found (List Char) :=
  blockText quote escapes ((afterBreak? s).getD s)

def quotedText : List Char → Found (List Char)
  | '"' :: '"' :: '"' :: r => openedBlock '"' true r
  | '\x27' :: '\x27' :: '\x27' :: r => openedBlock '\x27' false r
  | '"' :: r => basicText r
  | '\x27' :: r => literalText r
  | _ => none

end DeadlockCapture.Toml
