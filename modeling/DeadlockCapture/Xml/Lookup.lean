import DeadlockCapture.Text.Blank
import DeadlockCapture.Xml.Tree

/-!
Finding elements, attributes and text in the tree of a document. Elements are looked up by the name
without its prefix, attributes only if their name has no prefix.
-/

namespace DeadlockCapture.Xml

namespace Node

def children : Node → List Node
  | .element _ children => children
  | .text _ _ | .aside _ => []

/-- The name of an element; other nodes have none. -/
def name? : Node → Option (List Char)
  | .element tag _ => some tag.base
  | .text _ _ | .aside _ => none

def isNamed (n : Node) (name : String) : Bool :=
  n.name? == some name.toList

mutual

/-- A node and all nodes below it in document order. -/
def descendants : Node → List Node
  | .element tag children => .element tag children :: descendantsOf children
  | .text content start => [.text content start]
  | .aside start => [.aside start]

/-- Nodes and all nodes below them in document order. -/
def descendantsOf : List Node → List Node
  | [] => []
  | n :: r => descendants n ++ descendantsOf r

end

def child? (n : Node) (name : String) : Option Node :=
  n.children.find? (·.isNamed name)

def childrenNamed (n : Node) (name : String) : List Node :=
  n.children.filter (·.isNamed name)

def elements (n : Node) : List Node :=
  n.children.filter (·.name?.isSome)

def attributes : Node → List Attribute
  | .element tag _ => tag.attributes
  | .text _ _ | .aside _ => []

def attribute? (n : Node) (name : String) : Option String :=
  (n.attributes.find? fun a => a.space.isNone && a.base == name.toList).map
    fun a => String.ofList a.value

def attributeText (n : Node) (name : String) : String :=
  (n.attribute? name).getD ""

/-- The text of a node; elements have none of their own. -/
def ownText : Node → List Char
  | .text content _ => content
  | .element _ _ | .aside _ => []

def textContent (n : Node) : String :=
  String.ofList (Text.trim (n.descendants.flatMap ownText))

end Node

end DeadlockCapture.Xml
