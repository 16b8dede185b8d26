import DeadlockCapture.Text.Quoted

/-!
What can be wrong with a document, where, and how it is said.
-/

namespace DeadlockCapture.Xml

inductive Cause where
  | noRoot
  | unclosedRoot
  | unexpectedEnd
  | unknownToken
  | invalidName
  | expectedMark (wanted found : Char)
  | expectedQuote (found : Char)
  | expectedSpace (found : Char)
  | expectedText (wanted : String)
  | wrongClosing (wanted found : String)
  | secondDeclaration
  | documentType
  | dashesInComment
  | sectionEndInText
  | malformedReference
  | unknownReference (name : String)
  | forbiddenCharacter (c : Char)
  | repeatedAttribute (name : String)
  | repeatedNamespace (name : String)
  | unknownNamespace (name : String)
  | reservedPrefix
  | wrongXmlNamespace
  | misplacedXmlNamespace
  | reservedNamespace
deriving DecidableEq, Repr

/-- What is wrong, and before which character of the document. -/
structure Fault where
  cause : Cause
  offset : Nat
deriving DecidableEq, Repr

/-- The row and the column of an offset, both counted from 1. Only a line feed ends a row. -/
def place (document : List Char) (offset : Nat) : String :=
  let before := document.take offset
  let row := before.count '\n' + 1
  let column := (before.reverse.takeWhile (· ≠ '\n')).length + 1
  toString row ++ ":" ++ toString column

/-- The first byte of a character in UTF-8, shown as a character. -/
def firstByte (c : Char) : String :=
  let n := c.toNat
  let byte :=
    if n < 0x80 then n
    else if n < 0x800 then 0xC0 + n / 0x40
    else if n < 0x10000 then 0xE0 + n / 0x1000
    else 0xF0 + n / 0x40000
  String.singleton (Char.ofNat byte)

def Fault.message (document : String) (f : Fault) : String :=
  let position := " at " ++ place document.toList f.offset
  match f.cause with
  | .noRoot => "the document does not have a root node"
  | .unclosedRoot => "the root node was opened but never closed"
  | .unexpectedEnd => "unexpected end of stream"
  | .unknownToken => "unknown token" ++ position
  | .invalidName => "invalid name token" ++ position
  | .expectedMark wanted found =>
    "expected '" ++ String.singleton wanted ++ "' not '" ++ firstByte found ++ "'" ++ position
  | .expectedQuote found => "expected a quote not '" ++ firstByte found ++ "'" ++ position
  | .expectedSpace found => "expected a whitespace not '" ++ firstByte found ++ "'" ++ position
  | .expectedText wanted => "expected '" ++ wanted ++ "'" ++ position
  | .wrongClosing wanted found =>
    "expected '" ++ wanted ++ "' tag, not '" ++ found ++ "'" ++ position
  | .secondDeclaration => "unexpected XML declaration" ++ position
  | .documentType => "XML with DTD detected"
  | .dashesInComment => "comment" ++ position ++ " contains '--'"
  | .sectionEndInText => "']]>'" ++ position ++ " is not allowed inside a character data"
  | .malformedReference => "malformed entity reference" ++ position
  | .unknownReference name => "unknown entity reference '" ++ name ++ "'" ++ position
  | .forbiddenCharacter c => "a non-XML character " ++ Text.Quoted.char c ++ " found" ++ position
  | .repeatedAttribute name => "attribute '" ++ name ++ "'" ++ position ++ " is already defined"
  | .repeatedNamespace name => "namespace '" ++ name ++ "'" ++ position ++ " is already defined"
  | .unknownNamespace name => "an unknown namespace prefix '" ++ name ++ "'" ++ position
  | .reservedPrefix => "the 'xmlns' prefix is used" ++ position ++ ", but it must not be"
  | .wrongXmlNamespace => "'xml' namespace prefix mapped to wrong URI" ++ position
  | .misplacedXmlNamespace => "the 'xml' namespace URI is used for not 'xml' prefix" ++ position
  | .reservedNamespace => "the 'xmlns' URI is used" ++ position ++ ", but it must not be declared"

end DeadlockCapture.Xml
