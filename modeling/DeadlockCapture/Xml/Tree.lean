import DeadlockCapture.Xml.Reference
import DeadlockCapture.Xml.Token

/-!
The tree of a document. Elements and texts remember where they stand, so that a document can be
changed in one place and kept everywhere else.
-/

namespace DeadlockCapture.Xml

/-- An attribute with its value and the name space of its name, if the name has one. -/
structure Attribute where
  space : Option (List Char)
  base : List Char
  value : List Char
deriving DecidableEq, Repr

/-- What the tags of an element say: its name without the part before the colon, its attributes, and
the offsets at which it starts and stops. -/
structure Tag where
  base : List Char
  attributes : List Attribute
  start : Nat
  stop : Nat
deriving DecidableEq, Repr

inductive Node where
  | element (tag : Tag) (children : List Node)
  | text (content : List Char) (start : Nat)
  | aside (start : Nat)
deriving Inhabited

def Node.start : Node → Nat
  | .element tag _ => tag.start
  | .text _ start => start
  | .aside start => start

/-- The name spaces in scope: a prefix, or none for names without one, and what it stands for. -/
abbrev Scope := List (Option (List Char) × List Char)

/-- The name space that the prefix `xml` always stands for. -/
def xmlSpace : List Char :=
  "http://www.w3.org/XML/1998/namespace".toList

/-- The name space of the prefix `xmlns`, which nobody may declare. -/
def xmlnsSpace : List Char :=
  "http://www.w3.org/2000/xmlns/".toList

/-- The prefix `xmlns` and the name of the default declaration. -/
def xmlns : List Char :=
  ['x', 'm', 'l', 'n', 's']

/-- The prefix `xml`. -/
def xml : List Char :=
  ['x', 'm', 'l']

def Scope.space? (scope : Scope) (name : Option (List Char)) : Option (List Char) :=
  (scope.find? (·.1 == name)).map (·.2)

structure Pending where
  name : Name
  start : Nat
  declared : Scope
  /-- Its other attributes: name, offset and value. -/
  attributes : List (Name × Nat × List Char)

/-- An element whose end tag has not been read. Its children stand in reverse order. -/
structure Open where
  name : Name
  attributes : List Attribute
  start : Nat
  scope : Scope
  children : List Node

structure Builder where
  stack : List Open
  pending : Option Pending
  root : Option Node
  inText : Bool

def Builder.empty : Builder :=
  ⟨[], none, none, false⟩

def Pending.declare (p : Pending) (offset : Nat) (name : List Char) (value : List Char) :
    Except Fault Pending :=
  if value = xmlnsSpace then .error ⟨.reservedNamespace, offset⟩
  else if name = xml ∧ value ≠ xmlSpace then .error ⟨.wrongXmlNamespace, offset⟩
  else if name ≠ xml ∧ value = xmlSpace then .error ⟨.misplacedXmlNamespace, offset⟩
  else if p.declared.any (·.1 == some name) then
    .error ⟨.repeatedNamespace (String.ofList name), offset⟩
  else if value = xmlSpace then .ok p
  else .ok { p with declared := p.declared ++ [(some name, value)] }

def Pending.declareDefault (p : Pending) (offset : Nat) (value : List Char) :
    Except Fault Pending :=
  if value = xmlSpace then .error ⟨.misplacedXmlNamespace, offset⟩
  else if value = xmlnsSpace then .error ⟨.reservedNamespace, offset⟩
  else .ok { p with declared := p.declared ++ [(none, value)] }

def Pending.assign (p : Pending) (name : Name) (offset : Nat) (value : List Char) :
    Except Fault Pending :=
  if name.space = xmlns then p.declare offset name.base value
  else if name.base = xmlns then p.declareDefault offset value
  else .ok { p with attributes := p.attributes ++ [(name, offset, value)] }

/-- The name spaces in scope inside a tag: those that it declares, then those around it. -/
def Pending.scope (p : Pending) (outer : Scope) : Scope :=
  p.declared ++ outer.filter fun s => !p.declared.any (·.1 == s.1)

/-- The name space of an attribute's name. A name without a prefix has none. -/
def attributeSpace (scope : Scope) (name : Name) (offset : Nat) :
    Except Fault (Option (List Char)) :=
  if name.space = xml then .ok (some xmlSpace)
  else if name.space.isEmpty then .ok none
  else
    match scope.space? (some name.space) with
    | some space => .ok (some space)
    | none => .error ⟨.unknownNamespace (String.ofList name.space), offset⟩

/-- Resolves the names of attributes after those that are resolved; no two may be equal. -/
def resolveAttributes (scope : Scope) (seen : List Attribute) :
    List (Name × Nat × List Char) → Except Fault (List Attribute)
  | [] => .ok seen
  | (name, offset, value) :: r =>
    match attributeSpace scope name offset with
    | .error f => .error f
    | .ok space =>
      if seen.any fun a => a.space == space && a.base == name.base then
        .error ⟨.repeatedAttribute (String.ofList name.base), offset⟩
      else resolveAttributes scope (seen ++ [⟨space, name.base, value⟩]) r

def Pending.open (p : Pending) (outer : Scope) : Except Fault Open :=
  let scope := p.scope outer
  match resolveAttributes scope [] p.attributes with
  | .error f => .error f
  | .ok attributes =>
    if p.name.space.isEmpty ∨ (scope.space? (some p.name.space)).isSome then
      .ok ⟨p.name, attributes, p.start, scope, []⟩
    else .error ⟨.unknownNamespace (String.ofList p.name.space), p.start + 1⟩

def Open.close (o : Open) (stop : Nat) : Node :=
  .element ⟨o.name.base, o.attributes, o.start, stop⟩ o.children.reverse

/-- The name spaces in scope at the place where reading goes on. -/
def Builder.scope (b : Builder) : Scope :=
  match b.stack with
  | [] => []
  | o :: _ => o.scope

/-- Puts a node at the end of the innermost open element, or makes it the root. Comments and
instructions outside the root are left out. -/
def Builder.add (b : Builder) (node : Node) : Builder :=
  match b.stack, node with
  | o :: rest, node => { b with stack := { o with children := node :: o.children } :: rest }
  | [], .element tag children => { b with root := some (.element tag children) }
  | [], _ => b

/-- Puts text at the end of the innermost open element; text that touches text joins it. -/
def Builder.addText (b : Builder) (content : List Char) (start : Nat) : Builder :=
  match b.inText, b.stack with
  | true, o :: rest =>
    match o.children with
    | .text before first :: nodes =>
      { b with stack := { o with children := .text (before ++ content) first :: nodes } :: rest }
    | _ => { b.add (.text content start) with inText := true }
  | _, _ => { b.add (.text content start) with inText := true }

def Builder.take (b : Builder) : Token → Except Fault Builder
  | .fault f => .error f
  | .opening name start =>
    if name.space = xmlns then .error ⟨.reservedPrefix, start + 1⟩
    else .ok { b with pending := some ⟨name, start, [], []⟩, inText := false }
  | .assignment name start raw rawStart =>
    match b.pending with
    | none => .ok b
    | some p =>
      match attributeText rawStart raw with
      | .error f => .error f
      | .ok value =>
        match p.assign name start value with
        | .error f => .error f
        | .ok p => .ok { b with pending := some p }
  | .opened isEmpty stop =>
    match b.pending with
    | none => .ok b
    | some p =>
      match p.open b.scope with
      | .error f => .error f
      | .ok o =>
        let b := { b with pending := none, inText := false }
        if isEmpty then .ok (b.add (o.close stop)) else .ok { b with stack := o :: b.stack }
  | .closing name start stop =>
    match b.stack with
    | [] => .ok b
    | o :: rest =>
      if o.name = name then .ok ({ b with stack := rest, inText := false }.add (o.close stop))
      else .error ⟨.wrongClosing o.name.text name.text, start⟩
  | .text raw start =>
    match contentText start raw with
    | .error f => .error f
    | .ok content => .ok (if content.isEmpty then b else b.addText content start)
  | .verbatim raw start => .ok (b.addText (sectionText raw) start)
  | .aside start => .ok { b.add (.aside start) with inText := false }

/-- Takes tokens in order. -/
def Builder.takeAll (b : Builder) : List Token → Except Fault Builder
  | [] => .ok b
  | t :: r =>
    match b.take t with
    | .error f => .error f
    | .ok b => b.takeAll r

/-- The root element of what has been read, if it is complete. -/
def Builder.finish (b : Builder) (length : Nat) : Except Fault Node :=
  match b.stack, b.root with
  | [], some root => .ok root
  | _ :: _, _ => .error ⟨.unclosedRoot, length⟩
  | [], none => .error ⟨.noRoot, length⟩

def parse (document : String) : Except Fault Node :=
  match Builder.empty.takeAll (tokens document.toList) with
  | .error f => .error f
  | .ok b => b.finish document.length

end DeadlockCapture.Xml
