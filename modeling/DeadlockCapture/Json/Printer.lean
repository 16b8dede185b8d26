import DeadlockCapture.Decimal.Shortest
import DeadlockCapture.Json.Basic

/-!
The text of a JSON value: compact on one line, or with one member or item a line.
-/

namespace DeadlockCapture.Json

open DeadlockCapture.Text

/-- A character between quotes. Only the quote, the backslash and control characters are changed. -/
def escape (c : Char) : List Char :=
  if c = '"' then ['\\', '"']
  else if c = '\\' then ['\\', '\\']
  else if c = '\n' then ['\\', 'n']
  else if c = '\r' then ['\\', 'r']
  else if c = '\t' then ['\\', 't']
  else if c = '\x08' then ['\\', 'b']
  else if c = '\x0c' then ['\\', 'f']
  else if c.toNat < 0x20 then
    ['\\', 'u', '0', '0', Nat.digitChar (c.toNat / 16), Nat.digitChar (c.toNat % 16)]
  else [c]

def quote (s : String) : List Char :=
  '"' :: s.toList.flatMap escape ++ ['"']

def wholeText (n : Int) : List Char :=
  if n < 0 then '-' :: decimal n.natAbs else decimal n.natAbs

mutual

def compactChars : Json → List Char
  | .null => ['n', 'u', 'l', 'l']
  | .bool true => ['t', 'r', 'u', 'e']
  | .bool false => ['f', 'a', 'l', 's', 'e']
  | .whole n => wholeText n
  | .real x => Decimal.scientificText x
  | .text s => quote s
  | .list [] => ['[', ']']
  | .list (item :: rest) => '[' :: compactChars item ++ compactItems rest
  | .record [] => ['\x7b', '\x7d']
  | .record ((name, value) :: rest) =>
    '\x7b' :: quote name ++ ':' :: compactChars value ++ compactMembers rest

def compactItems : List Json → List Char
  | [] => [']']
  | item :: rest => ',' :: compactChars item ++ compactItems rest

def compactMembers : List (String × Json) → List Char
  | [] => ['\x7d']
  | (name, value) :: rest =>
    ',' :: quote name ++ ':' :: compactChars value ++ compactMembers rest

end

def compact (j : Json) : String :=
  String.ofList (compactChars j)

def newLine (depth : Nat) : List Char :=
  '\n' :: List.replicate (2 * depth) ' '

mutual

/-- The text with one item or member a line; `depth` is the depth of the value. -/
def prettyChars (depth : Nat) : Json → List Char
  | .null => ['n', 'u', 'l', 'l']
  | .bool true => ['t', 'r', 'u', 'e']
  | .bool false => ['f', 'a', 'l', 's', 'e']
  | .whole n => wholeText n
  | .real x => Decimal.scientificText x
  | .text s => quote s
  | .list [] => ['[', ']']
  | .list (item :: rest) =>
    '[' :: newLine (depth + 1) ++ prettyChars (depth + 1) item ++ prettyItems depth rest
  | .record [] => ['\x7b', '\x7d']
  | .record ((name, value) :: rest) =>
    '\x7b' :: newLine (depth + 1) ++ quote name ++ [':', ' '] ++ prettyChars (depth + 1) value ++
      prettyMembers depth rest

/-- Further items and the closing bracket, each on its line. -/
def prettyItems (depth : Nat) : List Json → List Char
  | [] => newLine depth ++ [']']
  | item :: rest =>
    ',' :: newLine (depth + 1) ++ prettyChars (depth + 1) item ++ prettyItems depth rest

/-- Further members and the closing brace, each on its line. -/
def prettyMembers (depth : Nat) : List (String × Json) → List Char
  | [] => newLine depth ++ ['\x7d']
  | (name, value) :: rest =>
    ',' :: newLine (depth + 1) ++ quote name ++ [':', ' '] ++ prettyChars (depth + 1) value ++
      prettyMembers depth rest

end

def pretty (j : Json) : String :=
  String.ofList (prettyChars 0 j)

end DeadlockCapture.Json
