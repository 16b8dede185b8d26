/-!
Tokens of a SQL statement, as far as redaction has to tell them apart.
-/

namespace DeadlockCapture.Sql

inductive TokenKind where
  /-- A text literal in single quotes, also with the letter N in front. -/
  | text
  /-- A whole, decimal, exponent, money or hexadecimal literal. -/
  | number
  | word
  /-- A name in brackets, double quotes or backticks. -/
  | quotedName
  | variable
  | placeholder
  | mark
deriving DecidableEq, Repr

/-- A token, and whether blanks or a comment separate it from the one before. -/
structure Token where
  kind : TokenKind
  text : List Char
  spaced : Bool
deriving DecidableEq, Repr

/-- Equality with an upper-case word, up to the case of ASCII letters. -/
def Token.spells (t : Token) (word : String) : Bool :=
  t.text.map Char.toUpper == word.toList

/-- The text in upper case, as far as its letters are ASCII. -/
def Token.upper (t : Token) : String :=
  String.ofList (t.text.map Char.toUpper)

end DeadlockCapture.Sql
