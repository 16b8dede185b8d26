/-!
Values of the exchange format JSON, as they are written.
-/

namespace DeadlockCapture

/-- A value to be written. The members of a record keep their order. -/
inductive Json where
  | null
  | bool (b : Bool)
  | whole (n : Int)
  | real (x : Float)
  | text (s : String)
  | list (items : List Json)
  | record (members : List (String × Json))
deriving Inhabited

namespace Json

def optional (name : String) (value : Option Json) : List (String × Json) :=
  (value.map fun v => (name, v)).toList

def unlessEmpty (name : String) (s : String) : List (String × Json) :=
  if s.isEmpty then [] else [(name, .text s)]

def unlessNil (name : String) (items : List Json) : List (String × Json) :=
  if items.isEmpty then [] else [(name, .list items)]

def whenSet (name : String) (b : Bool) : List (String × Json) :=
  if b then [(name, .bool true)] else []

def texts (items : List String) : Json :=
  .list (items.map .text)

end Json

end DeadlockCapture
