import DeadlockCapture.Text.Digits

/-!
JSON text as it is found by a reader from left to right. Text that stops being JSON half-way is
still a reading: it holds everything up to the place where it breaks off. A decoder that walks a
reading in order meets its own objections and the break in the order in which they stand.
-/

namespace DeadlockCapture.Json

open DeadlockCapture.Text

inductive Fault where
  | malformed
  /-- The text is JSON of another shape than expected. -/
  | mismatched
  | truncated
deriving DecidableEq, Repr

/-- A piece of a quoted text: a character, or a 16-bit unit given by its number. -/
inductive TextUnit where
  | plain (c : Char)
  | unit (n : Nat)
deriving DecidableEq, Repr

/-- A number as it is written. A number without a fraction has no fraction digits. -/
structure Numeral where
  negative : Bool
  whole : List Char
  fraction : List Char
  exponent : Option (Bool × List Char)
deriving DecidableEq, Repr

inductive Break where
  | here (f : Fault)
  /-- Between the quotes of a text, after the given units. -/
  | inText (units : List TextUnit) (f : Fault)
  | inNumber
deriving DecidableEq, Repr

/-- What a reader finds. A list or a record that breaks off has a break at its end. -/
inductive Reading where
  | null
  | bool (b : Bool)
  | number (n : Numeral)
  | text (units : List TextUnit)
  | list (items : List Reading) (stop : Option Break)
  | record (members : List (List TextUnit × Reading)) (stop : Option Break)
  | broken (stop : Break)
deriving Inhabited

/-- What is found, and the rest of the text unless it breaks off. -/
abbrev Found (α : Type) := α × Option (List Char)

def isSeparator (c : Char) : Bool :=
  c == ' ' || c == '\n' || c == '\t' || c == '\r'

def skipBlank (s : List Char) : List Char :=
  s.dropWhile isSeparator

/-- The characters that an escape of two characters stands for. -/
def escaped? (c : Char) : Option Char :=
  if c = '"' then some '"'
  else if c = '\\' then some '\\'
  else if c = '/' then some '/'
  else if c = 'b' then some '\x08'
  else if c = 'f' then some '\x0c'
  else if c = 'n' then some '\n'
  else if c = 'r' then some '\r'
  else if c = 't' then some '\t'
  else none

/-- The unit written in four hexadecimal digits. -/
def hexUnit (s : List Char) : Except Fault Nat :=
  let digits := s.take 4
  if utf8Length digits < 4 then .error .truncated
  else if digits.all isHexDigit then .ok (valueOf 16 digits)
  else .error .malformed

/-- Puts a unit in front of the units of a text. -/
def pushUnit (u : TextUnit) (found : List TextUnit × Except Fault (List Char)) :
    List TextUnit × Except Fault (List Char) :=
  (u :: found.1, found.2)

/-- The units of a text after its opening quote, and what follows its closing quote. -/
def readText : List Char → List TextUnit × Except Fault (List Char)
  | [] => ([], .error .truncated)
  | c :: r =>
    if c = '"' then ([], .ok r)
    else if c = '\\' then
      match r with
      | [] => ([], .error .truncated)
      | e :: t =>
        match escaped? e with
        | some d => pushUnit (.plain d) (readText t)
        | none =>
          if e = 'u' then
            match hexUnit t with
            | .ok n => pushUnit (.unit n) (readText (t.drop 4))
            | .error f => ([], .error f)
          else ([], .error .malformed)
    else if c.toNat < 0x20 then ([], .error .malformed)
    else pushUnit (.plain c) (readText r)
termination_by s => s.length
decreasing_by all_goals simp only [List.length_drop, List.length_cons]; omega

def readWord (word : List Char) (value : Reading) (s : List Char) : Found Reading :=
  match word, s with
  | [], s => (value, some s)
  | _ :: _, [] => (.broken (.here .truncated), none)
  | w :: word, c :: s =>
    if w = c then readWord word value s else (.broken (.here .malformed), none)

/-- A number that is not finished: at the end of the input, or before a wrong character. -/
def unfinishedNumber (s : List Char) : Found Reading :=
  if s.isEmpty then (.broken .inNumber, none) else (.broken (.here .malformed), none)

def readExponent (n : Numeral) (s : List Char) : Found Reading :=
  let (negative, s) := match s with
    | '+' :: r => (false, r)
    | '-' :: r => (true, r)
    | r => (false, r)
  let count := digitRun s
  if count = 0 then unfinishedNumber s
  else (.number { n with exponent := some (negative, s.take count) }, some (s.drop count))

def readScale (n : Numeral) (s : List Char) : Found Reading :=
  match s with
  | 'e' :: r => readExponent n r
  | 'E' :: r => readExponent n r
  | r => (.number n, some r)

/-- The fraction of a number, if it has one, and what follows. -/
def readFraction (n : Numeral) (s : List Char) : Found Reading :=
  match s with
  | '.' :: r =>
    let count := digitRun r
    if count = 0 then unfinishedNumber r
    else readScale { n with fraction := r.take count } (r.drop count)
  | r => readScale n r

/-- A number after its sign. A zero in front of further digits is no number. -/
def readNumber (negative : Bool) (s : List Char) : Found Reading :=
  let count := digitRun s
  if count = 0 then unfinishedNumber s
  else if s.head? = some '0' ∧ 1 < count then (.broken (.here .malformed), none)
  else readFraction ⟨negative, s.take count, [], none⟩ (s.drop count)

mutual

/-- The value in front of a text; `fuel` bounds the number of steps. -/
def readValue : Nat → List Char → Found Reading
  | 0, _ => (.broken (.here .truncated), none)
  | fuel + 1, s =>
    match skipBlank s with
    | [] => (.broken (.here .truncated), none)
    | c :: r =>
      if c = '\x7b' then
        match readMembers fuel true r with
        | (members, stop, rest) => (.record members stop, rest)
      else if c = '[' then
        match readItems fuel true r with
        | (items, stop, rest) => (.list items stop, rest)
      else if c = '"' then
        match readText r with
        | (units, .ok rest) => (.text units, some rest)
        | (units, .error f) => (.broken (.inText units f), none)
      else if c = 'n' then readWord ['u', 'l', 'l'] .null r
      else if c = 't' then readWord ['r', 'u', 'e'] (.bool true) r
      else if c = 'f' then readWord ['a', 'l', 's', 'e'] (.bool false) r
      else if c = '-' then readNumber true r
      else if c.isDigit then readNumber false (c :: r)
      else (.broken (.here .malformed), none)

def readItem : Nat → List Char → List Reading × Option Break × Option (List Char)
  | 0, _ => ([], some (.here .truncated), none)
  | fuel + 1, s =>
    match readValue fuel s with
    | (item, none) => ([item], none, none)
    | (item, some r) =>
      match readItems fuel false r with
      | (items, stop, rest) => (item :: items, stop, rest)

/-- The items of a list up to its closing bracket; `first` before the first of them. -/
def readItems : Nat → Bool → List Char → List Reading × Option Break × Option (List Char)
  | 0, _, _ => ([], some (.here .truncated), none)
  | fuel + 1, first, s =>
    match skipBlank s with
    | [] => ([], some (.here .truncated), none)
    | c :: r =>
      if c = ']' then ([], none, some r)
      else if first then readItem fuel (c :: r)
      else if c = ',' then readItem fuel r
      else ([], some (.here .malformed), none)

/-- One member, from the text after the opening quote of its name, and those after it. -/
def readMember : Nat → List Char →
    List (List TextUnit × Reading) × Option Break × Option (List Char)
  | 0, _ => ([], some (.here .truncated), none)
  | fuel + 1, s =>
    match readText s with
    | (units, .error f) => ([], some (.inText units f), none)
    | (units, .ok r) =>
      match skipBlank r with
      | [] => ([(units, .broken (.here .truncated))], none, none)
      | c :: r =>
        if c = ':' then
          match readValue fuel r with
          | (value, none) => ([(units, value)], none, none)
          | (value, some r) =>
            match readMembers fuel false r with
            | (members, stop, rest) => ((units, value) :: members, stop, rest)
        else ([(units, .broken (.here .malformed))], none, none)

/-- The members of a record up to its closing brace; `first` before the first of them. -/
def readMembers : Nat → Bool → List Char →
    List (List TextUnit × Reading) × Option Break × Option (List Char)
  | 0, _, _ => ([], some (.here .truncated), none)
  | fuel + 1, first, s =>
    match skipBlank s with
    | [] => ([], some (.here .truncated), none)
    | c :: r =>
      if c = '\x7d' then ([], none, some r)
      else if first then
        if c = '"' then readMember fuel r else ([], some (.here .malformed), none)
      else if c = ',' then
        match skipBlank r with
        | [] => ([], some (.here .truncated), none)
        | d :: t => if d = '"' then readMember fuel t else ([], some (.here .malformed), none)
      else ([], some (.here .malformed), none)

end

/-- The value that a text starts with, and what follows it. -/
def read (s : List Char) : Found Reading :=
  readValue (3 * s.length + 3) s

end DeadlockCapture.Json
