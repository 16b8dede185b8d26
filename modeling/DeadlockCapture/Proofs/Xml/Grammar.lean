import DeadlockCapture.Xml.Tree

/-!
The grammar of documents on their characters, and the tree of a document that follows it. Two
dialects share the grammar: XML 1.0 with name spaces, as the standards have it, and XML as it is
read here. Where the two part, a definition has a case for each. Of the document type declarations
of the standard only those are here that declare nothing and name nothing outside the document, so
that all references are to characters.
-/

namespace DeadlockCapture.Xml

open DeadlockCapture.Text

inductive Dialect where
  | standard
  | reader

/-! ### Names -/

def Blanks (w : List Char) : Prop :=
  ∀ c ∈ w, isSpace c = true

structure IsLocalName (w : List Char) : Prop where
  starts : w.head?.any startsLocalName = true
  inside : ∀ c ∈ w, inLocalName c = true

/-- What may stand before the colon of a name. For the reader it may be nothing. -/
def Dialect.NamesSpace (d : Dialect) (w : List Char) : Prop :=
  match d with
  | .standard => IsLocalName w
  | .reader => w = [] ∨ IsLocalName w

/-- A name as it is written. -/
inductive Dialect.IsName (d : Dialect) : Name → List Char → Prop
  | plain {base : List Char} : IsLocalName base → IsName d ⟨[], base⟩ base
  | qualified {space base : List Char} : d.NamesSpace space → IsLocalName base →
      IsName d ⟨space, base⟩ (space ++ ':' :: base)

/-! ### References and text -/

/-- A number in a reference stands for a character. The reader takes a number that is no character
for the replacement character. -/
def Dialect.Numbers (d : Dialect) (n : Nat) (c : Char) : Prop :=
  match d with
  | .standard => n = c.toNat ∧ isAllowed c = true
  | .reader =>
    n ≤ uint32Max ∧ c = (if n.isValidChar then Char.ofNat n else '\uFFFD') ∧ isAllowed c = true

/-- What stands between the ampersand and the semicolon of a reference, and its character. -/
inductive Dialect.Refers (d : Dialect) : List Char → Char → Prop
  | named {name : List Char} {c : Char} : namedChar? name = some c → Refers d name c
  | decimal {digits : List Char} {c : Char} : digits ≠ [] → (∀ e ∈ digits, e.isDigit = true) →
      d.Numbers (valueOf 10 digits) c → Refers d ('#' :: digits) c
  | hexadecimal {digits : List Char} {c : Char} : digits ≠ [] →
      (∀ e ∈ digits, isHexDigit e = true) → d.Numbers (valueOf 16 digits) c →
      Refers d ('#' :: 'x' :: digits) c

/-- A text in which every ampersand starts a reference. -/
inductive Dialect.Spells (d : Dialect) : List Char → List Glyph → Prop
  | nil : Spells d [] []
  | referred {name r : List Char} {c : Char} {g : List Glyph} : d.Refers name c → Spells d r g →
      Spells d ('&' :: (name ++ ';' :: r)) (.referred c :: g)
  | written {c : Char} {r : List Char} {g : List Glyph} : c ≠ '&' → Spells d r g →
      Spells d (c :: r) (.written c :: g)

/-- The text of glyphs in which a line that ends with a carriage return, alone or before a line
feed, ends with a line feed. -/
def feedLines : List Glyph → List Char
  | [] => []
  | .referred c :: r => c :: feedLines r
  | .written c :: r =>
    if c ≠ '\r' then c :: feedLines r
    else if r.head? = some (.written '\n') then feedLines r
    else '\n' :: feedLines r

/-- The text that is read. The reader keeps an end of line that follows a reference. -/
def Dialect.textOf (d : Dialect) (g : List Glyph) : List Char :=
  match d with
  | .standard => feedLines g
  | .reader => lineEnds false false g

/-- A stretch of text between markup. -/
structure IsText (raw : List Char) : Prop where
  filled : raw ≠ []
  allowed : ∀ c ∈ raw, isAllowed c = true
  noBracket : '<' ∉ raw
  noSectionEnd : holdsRun [']', ']', '>'] raw = false

def Dialect.ReadsText (d : Dialect) (raw content : List Char) : Prop :=
  ∃ g, d.Spells raw g ∧ d.textOf g = content

/-! ### Comments, instructions and sections -/

/-- Allowed characters without a mark, up to which they go. -/
structure IsUpTo (mark body : List Char) : Prop where
  allowed : ∀ c ∈ body, isAllowed c = true
  free : holdsRun mark body = false

/-- A comment holds no two dashes and ends with none. -/
inductive IsComment : List Char → Prop
  | mk {body : List Char} : IsUpTo ['-', '-'] body → body.getLast? ≠ some '-' →
      IsComment ('<' :: '!' :: '-' :: '-' :: (body ++ "-->".toList))

/-- What stands between the question marks of an instruction: a name other than that of a
declaration, and blanks before anything else. The reader takes any text that starts like a name and
not like a declaration. -/
def Dialect.Instructs (d : Dialect) (body : List Char) : Prop :=
  match d with
  | .standard => ∃ target data, body = target ++ data ∧ IsLocalName target ∧
      target.map Char.toLower ≠ xml ∧ data.head?.all isSpace = true
  | .reader => body.head?.any startsName = true ∧ ¬ "xml ".toList <+: body

inductive Dialect.IsInstruction (d : Dialect) : List Char → Prop
  | mk {body : List Char} : IsUpTo ['?', '>'] body → d.Instructs body →
      IsInstruction d ('<' :: '?' :: (body ++ "?>".toList))

/-- A comment or an instruction, with its brackets. -/
def Dialect.IsAside (d : Dialect) (w : List Char) : Prop :=
  IsComment w ∨ d.IsInstruction w

/-- A section with its brackets; between them stands `raw`. -/
inductive IsSection (raw : List Char) : List Char → Prop
  | mk : IsUpTo [']', ']', '>'] raw →
      IsSection raw ('<' :: '!' :: ("[CDATA[".toList ++ (raw ++ "]]>".toList)))

/-! ### Tags -/

/-- The value between two of the quotes `q`. -/
def Quotable (q : Char) (v : List Char) : Prop :=
  ∀ c ∈ v, isAllowed c = true ∧ c ≠ q ∧ c ≠ '<'

/-- An attribute as it is written. -/
inductive Dialect.IsAttribute (d : Dialect) (name : Name) (raw : List Char) : List Char → Prop
  | mk {w b b' : List Char} {q : Char} : d.IsName name w → Blanks b → Blanks b' →
      q = '"' ∨ q = '\x27' → Quotable q raw →
      IsAttribute d name raw (w ++ (b ++ '=' :: (b' ++ q :: (raw ++ [q]))))

/-- The attributes of a start tag, with their values. -/
inductive Dialect.AreAttributes (d : Dialect) : List (Name × List Char) → List Char → Prop
  | nil : AreAttributes d [] []
  | cons {name : Name} {raw b w r : List Char} {g : List Glyph} {l : List (Name × List Char)} :
      b ≠ [] → Blanks b → d.IsAttribute name raw w → d.Spells raw g → AreAttributes d l r →
      AreAttributes d ((name, valueChars g) :: l) (b ++ (w ++ r))

/-- The attribute declares what names without a prefix stand for. For the reader its name may have a
prefix itself. -/
def Dialect.declaresDefault (d : Dialect) (name : Name) : Bool :=
  match d with
  | .standard => name = ⟨[], xmlns⟩
  | .reader => name.space ≠ xmlns && name.base = xmlns

/-- The attribute declares a name space and is none of the element's attributes. -/
def Dialect.declares (d : Dialect) (name : Name) : Bool :=
  name.space = xmlns || d.declaresDefault name

/-- What an attribute adds to the name spaces in scope. The prefix `xml` is not kept among them. -/
def Dialect.declaration? (d : Dialect) (a : Name × List Char) :
    Option (Option (List Char) × List Char) :=
  if a.1.space = xmlns then if a.2 = xmlSpace then none else some (some a.1.base, a.2)
  else if d.declaresDefault a.1 then some (none, a.2)
  else none

/-- The name spaces in scope inside a tag: those that it declares, then those around it. -/
def Dialect.scopeOf (d : Dialect) (outer : Scope) (l : List (Name × List Char)) : Scope :=
  let declared := l.filterMap d.declaration?
  declared ++ outer.filter fun s => !declared.any (·.1 == s.1)

/-- The prefix of an attribute stands for a name space, the prefix `xml` always. -/
def Resolves (scope : Scope) (name : Name) : Prop :=
  name.space = xml ∨ name.space = [] ∨ (scope.space? (some name.space)).isSome = true

/-- The name space of an attribute's name, if it has one. -/
def spaceOf (scope : Scope) (name : Name) : Option (List Char) :=
  if name.space = xml then some xmlSpace
  else if name.space.isEmpty then none
  else scope.space? (some name.space)

def Dialect.attributesOf (d : Dialect) (scope : Scope) (l : List (Name × List Char)) :
    List Attribute :=
  (l.filter fun a => !d.declares a.1).map fun a => ⟨spaceOf scope a.1, a.1.base, a.2⟩

/-- A prefix may be declared for a name space. For the standard `xmlns` is no such prefix, and a
prefix always stands for something. -/
def Dialect.MayDeclare (d : Dialect) (name value : List Char) : Prop :=
  value ≠ xmlnsSpace ∧ (name = xml ↔ value = xmlSpace) ∧
    match d with
    | .standard => name ≠ xmlns ∧ value ≠ []
    | .reader => True

/-- No attribute is there twice. The reader lets the declarations of names without a prefix and of
the prefix `xml` be repeated. -/
def Dialect.Distinct (d : Dialect) (l : List (Name × List Char)) : Prop :=
  match d with
  | .standard => (l.map (·.1)).Nodup
  | .reader => ((l.filterMap d.declaration?).filterMap (·.1)).Nodup

/-- The prefix of an element stands for a name space. The reader must find it declared; the standard
knows `xml` without a declaration. -/
def Dialect.Knows (d : Dialect) (scope : Scope) (space : List Char) : Prop :=
  space = [] ∨ (scope.space? (some space)).isSome = true ∨
    match d with
    | .standard => space = xml
    | .reader => False

/-- The names in a start tag may stand together in a scope. -/
structure Dialect.Fits (d : Dialect) (outer : Scope) (name : Name) (l : List (Name × List Char)) :
    Prop where
  unreserved : name.space ≠ xmlns
  known : d.Knows (d.scopeOf outer l) name.space
  declared : ∀ a ∈ l, a.1.space = xmlns → d.MayDeclare a.1.base a.2
  declaredDefault : ∀ a ∈ l, d.declaresDefault a.1 = true → a.2 ≠ xmlSpace ∧ a.2 ≠ xmlnsSpace
  distinct : d.Distinct l
  resolved : ∀ a ∈ l, d.declares a.1 = false → Resolves (d.scopeOf outer l) a.1
  unique : ((d.attributesOf (d.scopeOf outer l) l).map fun a => (a.space, a.base)).Nodup

/-- What a start tag says of its element, wherever it stands. -/
structure Head where
  name : Name
  attributes : List Attribute
  /-- The name spaces in scope inside the element. -/
  scope : Scope

def tagEnd (isEmpty : Bool) : List Char :=
  if isEmpty then ['/', '>'] else ['>']

/-- The head of an element with these attributes in its start tag. -/
def Dialect.headOf (d : Dialect) (outer : Scope) (name : Name) (l : List (Name × List Char)) :
    Head :=
  ⟨name, d.attributesOf (d.scopeOf outer l) l, d.scopeOf outer l⟩

inductive Dialect.IsStartTag (d : Dialect) (outer : Scope) : List Char → Bool → Head → Prop
  | mk {name : Name} {l : List (Name × List Char)} {w attributes b : List Char} {isEmpty : Bool} :
      d.IsName name w → d.AreAttributes l attributes → Blanks b → d.Fits outer name l →
      IsStartTag d outer ('<' :: (w ++ (attributes ++ (b ++ tagEnd isEmpty)))) isEmpty
        (d.headOf outer name l)

inductive Dialect.IsEndTag (d : Dialect) (name : Name) : List Char → Prop
  | mk {w b : List Char} : d.IsName name w → Blanks b →
      IsEndTag d name ('<' :: '/' :: (w ++ (b ++ ['>'])))

/-! ### Content -/

/-- The content of an element as it is written, with everything that its tree leaves out. -/
inductive Markup where
  | nil
  | text (raw content : List Char) (next : Markup)
  | verbatim (raw written : List Char) (next : Markup)
  | aside (written : List Char) (next : Markup)
  | empty (tag : List Char) (head : Head) (next : Markup)
  | element (tag : List Char) (head : Head) (inner : Markup) (close : List Char) (next : Markup)

def Markup.source : Markup → List Char
  | .nil => []
  | .text raw _ next => raw ++ next.source
  | .verbatim _ written next => written ++ next.source
  | .aside written next => written ++ next.source
  | .empty tag _ next => tag ++ next.source
  | .element tag _ inner close next => tag ++ (inner.source ++ (close ++ next.source))

def Head.node (h : Head) (start stop : Nat) (children : List Node) : Node :=
  .element ⟨h.name.base, h.attributes, start, stop⟩ children

/-- Puts text in front of nodes in reverse order; text that touches text joins it. -/
def pushText (content : List Char) (start : Nat) : List Node → List Node
  | .text before first :: nodes => .text (before ++ content) first :: nodes
  | nodes => .text content start :: nodes

/-- The nodes of markup that starts at an offset, in reverse order, after those in `done`. -/
def Markup.onto : Markup → Nat → List Node → List Node
  | .nil, _, done => done
  | .text raw content next, offset, done =>
    next.onto (offset + raw.length) (pushText content offset done)
  | .verbatim raw written next, offset, done =>
    next.onto (offset + written.length) (pushText (sectionText raw) offset done)
  | .aside written next, offset, done =>
    next.onto (offset + written.length) (.aside offset :: done)
  | .empty tag head next, offset, done =>
    next.onto (offset + tag.length) (head.node offset (offset + tag.length) [] :: done)
  | .element tag head inner close next, offset, done =>
    let stop := offset + tag.length + inner.source.length + close.length
    next.onto stop (head.node offset stop (inner.onto (offset + tag.length) []).reverse :: done)

def Markup.startsText : Markup → Bool
  | .text .. => true
  | .nil | .verbatim .. | .aside .. | .empty .. | .element .. => false

/-- The markup may stand in an element with a scope inside. -/
inductive Markup.Stands (d : Dialect) : Scope → Markup → Prop
  | nil {scope : Scope} : Stands d scope .nil
  | text {scope : Scope} {raw content : List Char} {next : Markup} : IsText raw →
      d.ReadsText raw content → next.startsText = false → Stands d scope next →
      Stands d scope (.text raw content next)
  | verbatim {scope : Scope} {raw written : List Char} {next : Markup} : IsSection raw written →
      Stands d scope next → Stands d scope (.verbatim raw written next)
  | aside {scope : Scope} {written : List Char} {next : Markup} : d.IsAside written →
      Stands d scope next → Stands d scope (.aside written next)
  | empty {scope : Scope} {tag : List Char} {head : Head} {next : Markup} :
      d.IsStartTag scope tag true head → Stands d scope next → Stands d scope (.empty tag head next)
  | element {scope : Scope} {tag close : List Char} {head : Head} {inner next : Markup} :
      d.IsStartTag scope tag false head → Stands d head.scope inner → d.IsEndTag head.name close →
      Stands d scope next → Stands d scope (.element tag head inner close next)

/-- The markup of a root element. -/
inductive Markup.IsRoot (d : Dialect) : Markup → Prop
  | empty {tag : List Char} {head : Head} : d.IsStartTag [] tag true head →
      IsRoot d (.empty tag head .nil)
  | element {tag close : List Char} {head : Head} {inner : Markup} :
      d.IsStartTag [] tag false head → inner.Stands d head.scope → d.IsEndTag head.name close →
      IsRoot d (.element tag head inner close .nil)

/-! ### Documents -/

/-- Blanks, comments and instructions around the root element. -/
inductive Dialect.IsMisc (d : Dialect) : List Char → Prop
  | nil : IsMisc d []
  | blank {c : Char} {r : List Char} : isSpace c = true → IsMisc d r → IsMisc d (c :: r)
  | aside {w r : List Char} : d.IsAside w → IsMisc d r → IsMisc d (w ++ r)

/-- A part of a declaration, after blanks. The reader looks at the start of its name only and takes
any value. -/
def Dialect.Declares (d : Dialect) (key : List Char) (isValue : List Char → Prop) (w : List Char) :
    Prop :=
  ∃ b a name raw, w = b ++ a ∧ b ≠ [] ∧ Blanks b ∧ d.IsAttribute name raw a ∧
    match d with
    | .standard => name = ⟨[], key⟩ ∧ isValue raw
    | .reader => key <+: a

/-- A version from 1.0 on. -/
def IsVersion (v : List Char) : Prop :=
  ∃ digits, v = '1' :: '.' :: digits ∧ digits ≠ [] ∧ ∀ c ∈ digits, c.isDigit = true

def IsEncoding (v : List Char) : Prop :=
  v.head?.any Char.isAlpha = true ∧ ∀ c ∈ v, c.isAlphanum = true ∨ c ∈ ['.', '_', '-']

def IsAnswer (v : List Char) : Prop :=
  v = ['y', 'e', 's'] ∨ v = ['n', 'o']

/-- The declaration in front of a document. For the reader it starts with a space. -/
def Dialect.IsDeclaration (d : Dialect) (w : List Char) : Prop :=
  ∃ version encoding standalone b,
    w = "<?xml".toList ++ (version ++ (encoding ++ (standalone ++ (b ++ "?>".toList)))) ∧
    d.Declares "version".toList IsVersion version ∧
    (encoding = [] ∨ d.Declares "encoding".toList IsEncoding encoding) ∧
    (standalone = [] ∨ d.Declares "standalone".toList IsAnswer standalone) ∧ Blanks b ∧
    match d with
    | .standard => True
    | .reader => version.head? = some ' '

/-- A document type declaration that declares nothing. The reader takes none. -/
def Dialect.IsDocumentType (d : Dialect) (w : List Char) : Prop :=
  match d with
  | .standard => ∃ b name written b', w = "<!DOCTYPE".toList ++ (b ++ (written ++ (b' ++ ['>']))) ∧
      b ≠ [] ∧ Blanks b ∧ d.IsName name written ∧ Blanks b'
  | .reader => False

/-- What stands in front of the root element: a byte order mark, a declaration, and a document type
declaration, none of which must be there. -/
inductive Dialect.IsFront (d : Dialect) : List Char → Prop
  | mk {mark declaration misc more : List Char} : mark = [] ∨ mark = ['\uFEFF'] →
      declaration = [] ∨ d.IsDeclaration declaration → d.IsMisc misc →
      more = [] ∨ (∃ type r, more = type ++ r ∧ d.IsDocumentType type ∧ d.IsMisc r) →
      IsFront d (mark ++ (declaration ++ (misc ++ more)))

/-- The text is a document with this root element. -/
def Dialect.IsDocument (d : Dialect) (s : List Char) (root : Node) : Prop :=
  ∃ front post, ∃ c : Markup, s = front ++ (c.source ++ post) ∧ d.IsFront front ∧ c.IsRoot d ∧
    d.IsMisc post ∧ c.onto front.length [] = [root]

end DeadlockCapture.Xml
