import DeadlockCapture.Sql.Token
import DeadlockCapture.Text.Blank
import DeadlockCapture.Text.Digits
import DeadlockCapture.Text.Letter
import DeadlockCapture.Text.Numeral

/-!
The division of a SQL statement into lexemes: tokens, blanks and comments. Nothing is dropped here,
so the lexemes of a statement concatenate to it. A statement is refused when a literal, a quoted
name or a comment is never closed, because then nobody can say where a literal ends.
-/

namespace DeadlockCapture.Sql

open DeadlockCapture.Text

inductive LexemeKind where
  | blank
  | comment
  | token (kind : TokenKind)
deriving DecidableEq, Repr

structure Lexeme where
  kind : LexemeKind
  text : List Char
deriving DecidableEq, Repr

/-- The constructs that have to be closed. -/
inductive Construct where
  | text
  | quotedName
  | comment
deriving DecidableEq, Repr

/-- A construct that is never closed, and the byte at which it opens. -/
structure Unclosed where
  construct : Construct
  offset : Nat
deriving DecidableEq, Repr

def Unclosed.message (e : Unclosed) : String :=
  let what := match e.construct with
    | .text => "string literal"
    | .quotedName => "quoted identifier"
    | .comment => "block comment"
  "unterminated " ++ what ++ " at byte " ++ toString e.offset

def startsName (c : Char) : Bool :=
  isLetter c || c == '_' || c == '#'

def continuesName (c : Char) : Bool :=
  isLetter c || isNumeral c || c == '_' || c == '#' || c == '$' || c == '@'

/-- How many characters reach to the end of a quotation; a doubled closing mark stands for
itself. -/
def quotedLength (close : Char) : List Char → Option Nat
  | [] => none
  | [c] => if c = close then some 1 else none
  | c :: d :: r =>
    if c = close then
      if d = close then (quotedLength close r).map (· + 2) else some 1
    else (quotedLength close (d :: r)).map (· + 1)

/-- How many characters reach to the end of a comment that has `depth` more comments open. -/
def commentLength : Nat → List Char → Option Nat
  | _, [] => none
  | depth, '/' :: '*' :: r => (commentLength (depth + 1) r).map (· + 2)
  | 0, '*' :: '/' :: _ => some 2
  | depth + 1, '*' :: '/' :: r => (commentLength depth r).map (· + 2)
  | depth, _ :: r => (commentLength depth r).map (· + 1)

/-- The length of a decimal point and the digits after it. -/
def fractionLength : List Char → Nat
  | '.' :: r => digitRun r + 1
  | _ => 0

/-- The length of an exponent; the letter alone is none. -/
def exponentLength : List Char → Nat
  | e :: r =>
    if e = 'e' ∨ e = 'E' then
      match r with
      | sign :: t =>
        if sign = '+' ∨ sign = '-' then
          if digitRun t = 0 then 0 else digitRun t + 2
        else if digitRun r = 0 then 0 else digitRun r + 1
      | [] => 0
    else 0
  | [] => 0

/-- The length of a run of digits and the exponent after it. -/
def decimalsLength (s : List Char) : Nat :=
  digitRun s + exponentLength (s.drop (digitRun s))

/-- The length of the fraction and the exponent in front. -/
def scaleLength (s : List Char) : Nat :=
  fractionLength s + exponentLength (s.drop (fractionLength s))

def numberLength (s : List Char) : Nat :=
  digitRun s + scaleLength (s.drop (digitRun s))

def startsNumber : List Char → Bool
  | c :: r => c.isDigit || (c == '.' && r.head?.any Char.isDigit)
  | [] => false

def nameRun (s : List Char) : Nat :=
  (s.takeWhile continuesName).length

inductive Rule where
  | blank
  | lineComment
  | blockComment
  /-- A quotation that ends at `close`; its body starts after `skip` more characters. -/
  | quotation (construct : Construct) (kind : TokenKind) (close : Char) (skip : Nat)
  | hexadecimal
  | decimal
  | fraction
  | namedVariable
  | globalVariable
  | placeholder
  | money
  | word
  | mark
deriving DecidableEq, Repr

/-- How the lexeme starts that begins with `c` and goes on in `r`. -/
def ruleFor (c : Char) (r : List Char) : Rule :=
  if isBlank c then .blank
  else if c = '-' ∧ r.head? = some '-' then .lineComment
  else if c = '/' ∧ r.head? = some '*' then .blockComment
  else if c = '\x27' then .quotation .text .text '\x27' 0
  else if (c = 'N' ∨ c = 'n') ∧ r.head? = some '\x27' then .quotation .text .text '\x27' 1
  else if c = '[' then .quotation .quotedName .quotedName ']' 0
  else if c = '"' ∨ c = '\x60' then .quotation .quotedName .quotedName c 0
  else if c = '0' ∧ (r.head? = some 'x' ∨ r.head? = some 'X') then .hexadecimal
  else if c.isDigit then .decimal
  else if c = '.' ∧ r.head?.any Char.isDigit then .fraction
  else if (c = '@' ∨ c = ':') ∧ r.head?.any startsName then .namedVariable
  else if c = '@' ∧ r.head? = some '@' then .globalVariable
  else if c = '?' then .placeholder
  else if c = '$' ∧ startsNumber r then .money
  else if startsName c ∨ c = '$' then .word
  else .mark

/-- The kind of a lexeme that starts so, and how many characters of `r` belong to it. -/
def Rule.read (r : List Char) : Rule → Except Construct (LexemeKind × Nat)
  | .blank => .ok (.blank, 0)
  | .lineComment => .ok (.comment, (r.takeWhile (· ≠ '\n')).length)
  | .blockComment =>
    match commentLength 0 r.tail with
    | some n => .ok (.comment, n + 1)
    | none => .error .comment
  | .quotation construct kind close skip =>
    match quotedLength close (r.drop skip) with
    | some n => .ok (.token kind, skip + n)
    | none => .error construct
  | .hexadecimal => .ok (.token .number, 1 + (r.tail.takeWhile isHexDigit).length)
  | .decimal | .money => .ok (.token .number, numberLength r)
  | .fraction => .ok (.token .number, decimalsLength r)
  | .namedVariable => .ok (.token .variable, nameRun r)
  | .globalVariable => .ok (.token .variable, 1 + nameRun r.tail)
  | .placeholder => .ok (.token .placeholder, 0)
  | .word => .ok (.token .word, nameRun r)
  | .mark => .ok (.token .mark, 0)

/-- The kind of the lexeme that starts with `c`, and how many characters of `r` belong to it. -/
def leading (c : Char) (r : List Char) : Except Construct (LexemeKind × Nat) :=
  (ruleFor c r).read r

/-- The lexemes of a statement that begins at a byte offset. -/
def lexemesFrom (offset : Nat) : List Char → Except Unclosed (List Lexeme)
  | [] => .ok []
  | c :: r =>
    match leading c r with
    | .error construct => .error ⟨construct, offset⟩
    | .ok (kind, n) =>
      match lexemesFrom (offset + utf8Length (c :: r.take n)) (r.drop n) with
      | .error e => .error e
      | .ok rest => .ok (⟨kind, c :: r.take n⟩ :: rest)
termination_by s => s.length
decreasing_by simp only [List.length_drop, List.length_cons]; omega

def lexemes (s : List Char) : Except Unclosed (List Lexeme) :=
  lexemesFrom 0 s

/-- The tokens among lexemes; `gap` says whether a blank or a comment was the lexeme before. -/
def tokensAfter (gap : Bool) : List Lexeme → List Token
  | [] => []
  | ⟨.token kind, text⟩ :: r => ⟨kind, text, gap⟩ :: tokensAfter false r
  | _ :: r => tokensAfter true r

def tokens (s : List Char) : Except Unclosed (List Token) :=
  (lexemes s).map (tokensAfter false)

end DeadlockCapture.Sql
