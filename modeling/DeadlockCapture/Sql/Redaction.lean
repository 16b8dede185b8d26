import DeadlockCapture.Sql.Lexeme

/-!
Redaction of a statement, token by token: literals become placeholders, lists of placeholders
shrink to one, and blanks and comments to one space.
-/

namespace DeadlockCapture.Sql

/-- What redaction does beyond replacing literals. -/
structure RedactionOptions where
  replaceDigits : Bool := false
  /-- Shorten a list of placeholders after the word IN to one. -/
  collapseLists : Bool := true
  keepNull : Bool := false
  keepBoolean : Bool := false
  extractMetadata : Bool := true
deriving DecidableEq, Repr

def placeholderText : List Char :=
  ['?']

/-- Replaces each run of digits; `inRun` says whether the character before was a digit. -/
def replaceDigitsAfter (inRun : Bool) : List Char → List Char
  | [] => []
  | c :: r =>
    if c.isDigit then
      if inRun then replaceDigitsAfter true r else '?' :: replaceDigitsAfter true r
    else c :: replaceDigitsAfter false r

def replaceDigitRuns (text : List Char) : List Char :=
  replaceDigitsAfter false text

def RedactionOptions.isLiteralWord (o : RedactionOptions) (t : Token) : Bool :=
  (!o.keepNull && t.spells "NULL") ||
    (!o.keepBoolean && (t.spells "TRUE" || t.spells "FALSE"))

def RedactionOptions.redactedText (o : RedactionOptions) (t : Token) : List Char :=
  match t.kind with
  | .text | .number => placeholderText
  | .word =>
    if o.isLiteralWord t then placeholderText
    else if o.replaceDigits then replaceDigitRuns t.text else t.text
  | .quotedName => if o.replaceDigits then replaceDigitRuns t.text else t.text
  | .variable | .placeholder | .mark => t.text

/-- A token after redaction; it keeps its kind. -/
def RedactionOptions.redact (o : RedactionOptions) (t : Token) : Token :=
  { t with text := o.redactedText t }

/-- How many tokens stand before the parenthesis that closes a list of placeholders. -/
def placeholderRun : List Token → Option Nat
  | item :: next :: r =>
    if item.text = placeholderText then
      if next.text = [')'] then some 1
      else if next.text = [','] then (placeholderRun r).map (· + 2)
      else none
    else none
  | _ => none

/-- How many tokens between the first item and the closing parenthesis are left out after `t`. -/
def surplus (t : Token) (r : List Token) : Option Nat :=
  if t.kind = .word ∧ t.spells "IN" ∧ r.head?.any (·.text == ['(']) then
    (placeholderRun r.tail).map (· - 1)
  else none

/-- Shortens each list of placeholders after the word IN to its first item. -/
def collapseLists : List Token → List Token
  | [] => []
  | t :: r =>
    match surplus t r with
    | some n => t :: (r.take 2 ++ collapseLists (r.drop (2 + n)))
    | none => t :: collapseLists r
termination_by ts => ts.length
decreasing_by
  all_goals simp only [List.length_drop, List.length_cons]; omega

def RedactionOptions.pieces (o : RedactionOptions) (ts : List Token) : List Token :=
  let redacted := ts.map o.redact
  if o.collapseLists then Sql.collapseLists redacted else redacted

/-- The text of tokens after others: one space where there was a gap. -/
def renderRest (ts : List Token) : List Char :=
  ts.flatMap fun t => if t.spaced then ' ' :: t.text else t.text

def render : List Token → List Char
  | [] => []
  | t :: r => t.text ++ renderRest r

end DeadlockCapture.Sql
