import DeadlockCapture.Configuration.Setting

/-!
Places of settings inside one another, such as `output.file` or `tags[0]`, and putting values there.
What stands in the way is replaced.
-/

namespace DeadlockCapture.Configuration

/-- A step from a setting to one inside it. -/
inductive Slot where
  | key (name : String)
  | index (i : Int)
deriving DecidableEq, Repr

def isPathChar (c : Char) : Bool :=
  c.isAlphanum || c == '_' || c == '-'

def dropBlank (s : List Char) : List Char :=
  s.dropWhile fun c => c == ' ' || c == '\t'

/-- The number of an index, and what follows its bracket. -/
def index? (s : List Char) : Option (Int × List Char) :=
  let s := dropBlank s
  let (negative, s) := match s with
    | '-' :: r => (true, r)
    | r => (false, r)
  let digits := s.takeWhile Char.isDigit
  match digits.isEmpty, dropBlank (s.dropWhile Char.isDigit) with
  | false, ']' :: r =>
    let n : Int := Text.valueOf 10 digits
    if n ≤ int64Max then some (if negative then -n else n, r) else none
  | _, _ => none

/-- The steps of a path after its first name; `fuel` bounds their number. -/
def stepsOf : Nat → List Char → Option (List Slot)
  | 0, _ => none
  | _ + 1, [] => some []
  | fuel + 1, c :: r =>
    if c = '.' then
      let name := r.takeWhile isPathChar
      if name.isEmpty then none
      else (stepsOf fuel (r.dropWhile isPathChar)).map (.key (String.ofList name) :: ·)
    else if c = '[' then
      match index? r with
      | none => none
      | some (i, r) => (stepsOf fuel r).map (.index i :: ·)
    else none

/-- The path that a name stands for; a name that is no path stands for itself. -/
def pathOf (name : String) : List Slot :=
  let s := name.toList
  let first := s.takeWhile isPathChar
  let path := if first.isEmpty then none
    else (stepsOf (s.length + 1) (s.dropWhile isPathChar)).map (.key (String.ofList first) :: ·)
  path.getD [.key name]

namespace Setting

def setMember (name : String) (v : Setting) : List (String × Setting) → List (String × Setting)
  | [] => [(name, v)]
  | m :: r => if m.1 = name then (name, v) :: r else m :: setMember name v r

/-- The members of a table; anything else has none. -/
def membersOf : Setting → List (String × Setting)
  | .table members => members
  | _ => []

/-- The items of a list; anything else has none. -/
def itemsOf : Setting → List Setting
  | .list items => items
  | _ => []

/-- Makes room for an item: the list with it, and its place. -/
def makeRoom (i : Int) (items : List Setting) : List Setting × Nat :=
  let place := if i < 0 then items.length + i else i
  if place < 0 then (List.replicate place.natAbs .absent ++ items, 0)
  else (items ++ List.replicate (place.toNat + 1 - items.length) .absent, place.toNat)

def modifyAt (f : Setting → Setting) : List Slot → Setting → Setting
  | [], s => f s
  | .key name :: rest, s =>
    let members := s.membersOf
    let old := ((members.find? (·.1 == name)).map (·.2)).getD .absent
    .table (setMember name (modifyAt f rest old) members)
  | .index i :: rest, s =>
    let (items, place) := makeRoom i s.itemsOf
    .list (items.modify place (modifyAt f rest))

mutual

/-- Lays a value over another. Tables are merged, everything else is replaced. -/
def layOver (old : Setting) : Setting → Setting
  | .table members => .table (layMembersOver old.membersOf members)
  | new => new

def layMembersOver (old : List (String × Setting)) :
    List (String × Setting) → List (String × Setting)
  | [] => old
  | (name, v) :: rest =>
    let before := ((old.find? (·.1 == name)).map (·.2)).getD .absent
    layMembersOver (setMember name (layOver before v) old) rest

end

def put (s : Setting) (name : String) (v : Setting) : Setting :=
  modifyAt (fun old => layOver old v) (pathOf name) s

def putAll (s : Setting) : List (String × Setting) → Setting
  | [] => s
  | (name, v) :: rest => (s.put name v).putAll rest

end Setting

end DeadlockCapture.Configuration
