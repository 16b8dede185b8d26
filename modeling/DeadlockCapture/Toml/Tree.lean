import DeadlockCapture.Toml.Scalar

/-!
The tables of a TOML document while it is read. A table is defined once: by its header, or by the
dotted keys in it. A table that only stands on the way to another may still be defined.
-/

namespace DeadlockCapture.Toml

open DeadlockCapture.Configuration (Setting)

inductive Origin where
  /-- It stands on the way to a table with a header. -/
  | implied
  | header
  | dotted
deriving DecidableEq, Repr

inductive Node where
  | leaf (v : Setting)
  | table (origin : Origin) (members : List (String × Node))
  | tables (latest : List (String × Node)) (earlier : List (List (String × Node)))

abbrev Members := List (String × Node)

namespace Members

def find (m : Members) (name : String) : Option Node :=
  (m.find? (·.1 == name)).map (·.2)

def set (m : Members) (name : String) (n : Node) : Members :=
  if m.any (·.1 == name) then m.map fun e => if e.1 == name then (name, n) else e
  else m ++ [(name, n)]

/-- Gives a value to a key along a path of dotted keys. A table on the way has no header, and from
now on comes from dotted keys; the latest table of a list may stand on the way, but not last. -/
def assign : List String → Setting → Members → Option Members
  | [], _, _ => none
  | [name], v, m => if (m.find name).isSome then none else some (m.set name (.leaf v))
  | name :: next :: rest, v, m =>
    match m.find name with
    | none => (assign (next :: rest) v []).map fun inner => m.set name (.table .dotted inner)
    | some (.table origin inner) =>
      if origin = .header then none
      else (assign (next :: rest) v inner).map fun inner => m.set name (.table .dotted inner)
    | some (.tables latest earlier) =>
      if rest.isEmpty then none
      else (assign (next :: rest) v latest).map fun latest => m.set name (.tables latest earlier)
    | some (.leaf _) => none

def define (change : Option Node → Option Node) : List String → Members → Option Members
  | [], _ => none
  | [name], m => (change (m.find name)).map (m.set name)
  | name :: next :: rest, m =>
    match m.find name with
    | none => (define change (next :: rest) []).map fun inner => m.set name (.table .implied inner)
    | some (.table origin inner) =>
      (define change (next :: rest) inner).map fun inner => m.set name (.table origin inner)
    | some (.tables latest earlier) =>
      (define change (next :: rest) latest).map fun latest => m.set name (.tables latest earlier)
    | some (.leaf _) => none

def openTable : Option Node → Option Node
  | none => some (.table .header [])
  | some (.table .implied members) => some (.table .header members)
  | _ => none

def openItem : Option Node → Option Node
  | none => some (.tables [] [])
  | some (.tables latest earlier) => some (.tables [] (latest :: earlier))
  | _ => none

/-- Changes the members of the table that a header has opened. -/
def within (change : Members → Option Members) : List String → Members → Option Members
  | [], m => change m
  | name :: rest, m =>
    match m.find name with
    | some (.table origin inner) =>
      (within change rest inner).map fun inner => m.set name (.table origin inner)
    | some (.tables latest earlier) =>
      (within change rest latest).map fun latest => m.set name (.tables latest earlier)
    | _ => none

end Members

def dateKey : String :=
  "$__toml_private_datetime"

/-- What a table of settings stands for: for a date or a time if the least of its keys is the one
that says so. -/
def ofMembers? (members : List (String × Setting)) : Option Setting :=
  match members.find? (·.1 == dateKey) with
  | none => some (.table members)
  | some (_, v) =>
    if members.any (·.1 < dateKey) then some (.table members)
    else
      match v with
      | .text s => (dateTime? s.toList).map fun t => .text (String.ofList t)
      | _ => none

mutual

def Node.value? : Node → Option Setting
  | .leaf v => some v
  | .table _ members => (memberValues? members).bind ofMembers?
  | .tables latest earlier =>
    match (memberValues? latest).bind ofMembers?, tableValues? earlier with
    | some last, some before => some (.list (before.reverse ++ [last]))
    | _, _ => none

def memberValues? : List (String × Node) → Option (List (String × Setting))
  | [] => some []
  | (name, n) :: rest =>
    match n.value?, memberValues? rest with
    | some v, some values => some ((name, v) :: values)
    | _, _ => none

def tableValues? : List (List (String × Node)) → Option (List Setting)
  | [] => some []
  | members :: rest =>
    match (memberValues? members).bind ofMembers?, tableValues? rest with
    | some v, some values => some (v :: values)
    | _, _ => none

end

end DeadlockCapture.Toml
