import DeadlockCapture.Toml.Tree

/-!
Documents in TOML: lines that open tables and lines that give values to keys.
-/

namespace DeadlockCapture.Toml

open DeadlockCapture.Configuration (Setting)

def skipSpace (s : List Char) : List Char :=
  s.dropWhile isSpace

def skipComment : List Char → List Char
  | '#' :: r => r.dropWhile isShown
  | r => r

/-- What follows a line break, blanks and a comment before it set aside. -/
def lineBreak? (s : List Char) : Option (List Char) :=
  afterBreak? (skipComment (skipSpace s))

/-- Drops blanks, comments and line breaks in front; `fuel` bounds the number of lines. -/
def skipLines : Nat → List Char → List Char
  | 0, s => s
  | fuel + 1, s =>
    match lineBreak? s with
    | some r => skipLines fuel r
    | none => skipSpace s

def isBare (c : Char) : Bool :=
  c.isAlphanum || c == '_' || c == '-'

def keyPart (s : List Char) : Found String :=
  match s with
  | '"' :: r => (basicText r).map fun (t, rest) => (String.ofList t, rest)
  | '\x27' :: r => (literalText r).map fun (t, rest) => (String.ofList t, rest)
  | _ =>
    let part := s.takeWhile isBare
    if part.isEmpty then none else some (String.ofList part, s.drop part.length)

/-- How many parts a key has at most, and how many lists and tables may stand inside each other. -/
def depthLimit : Nat :=
  80

/-- At most a number of parts of a key, and what follows the blanks after it. -/
def keyParts : Nat → List Char → Found (List String)
  | 0, _ => none
  | limit + 1, s =>
    match keyPart (skipSpace s) with
    | none => none
    | some (part, r) =>
      match skipSpace r with
      | '.' :: r => (keyParts limit r).map fun (parts, rest) => (part :: parts, rest)
      | r => some ([part], r)

/-- The parts of a key, and what follows the blanks after it. -/
def key (s : List Char) : Found (List String) :=
  keyParts depthLimit s

mutual

/-- The value in front, in which a number of lists and tables may stand inside each other; `fuel`
bounds the number of steps. -/
def value : Nat → Nat → List Char → Found Setting
  | 0, _, _ => none
  | fuel + 1, depth, s =>
    match s, depth with
    | '"' :: _, _ => (quotedText s).map fun (t, rest) => (.text (String.ofList t), rest)
    | '\x27' :: _, _ => (quotedText s).map fun (t, rest) => (.text (String.ofList t), rest)
    | '[' :: _, 0 => none
    | '[' :: r, depth + 1 =>
      (items fuel depth (skipLines r.length r)).map fun (found, rest) => (.list found, rest)
    | '\x7b' :: _, 0 => none
    | '\x7b' :: r, depth + 1 =>
      match pairs fuel depth [] (skipLines r.length r) with
      | none => none
      | some (m, rest) => ((memberValues? m).bind ofMembers?).map fun v => (v, rest)
    | _, _ => scalar s

def items : Nat → Nat → List Char → Found (List Setting)
  | 0, _, _ => none
  | fuel + 1, depth, s =>
    match s with
    | ']' :: r => some ([], r)
    | _ =>
      match value fuel depth s with
      | none => none
      | some (v, r) =>
        match skipLines r.length r with
        | ',' :: r =>
          (items fuel depth (skipLines r.length r)).map fun (vs, rest) => (v :: vs, rest)
        | ']' :: r => some ([v], r)
        | _ => none

/-- The keys and values of a table up to its closing brace. -/
def pairs : Nat → Nat → Members → List Char → Found Members
  | 0, _, _, _ => none
  | fuel + 1, depth, m, s =>
    match s with
    | '\x7d' :: r => some (m, r)
    | _ =>
      match (key s).map fun (path, r) => (path, skipLines r.length r) with
      | some (path, '=' :: r) =>
        match value fuel depth (skipLines r.length r) with
        | none => none
        | some (v, r) =>
          match m.assign path v, skipLines r.length r with
          | some m, ',' :: r => pairs fuel depth m (skipLines r.length r)
          | some m, '\x7d' :: r => some (m, r)
          | _, _ => none
      | _ => none

end

inductive Statement where
  | table (path : List String)
  /-- The following lines belong to a new table in a list. -/
  | item (path : List String)
  | assign (path : List String) (v : Setting)

def statement (s : List Char) : Found Statement :=
  match s with
  | '[' :: '[' :: r =>
    match key r with
    | some (path, ']' :: ']' :: rest) => some (.item path, rest)
    | _ => none
  | '[' :: r =>
    match key r with
    | some (path, ']' :: rest) => some (.table path, rest)
    | _ => none
  | _ =>
    match key s with
    | some (path, '=' :: r) =>
      (value (2 * s.length) depthLimit (skipSpace r)).map fun (v, rest) => (.assign path v, rest)
    | _ => none

/-- The statements of a document; `fuel` bounds their number. -/
def statements : Nat → List Char → Option (List Statement)
  | 0, _ => none
  | fuel + 1, s =>
    match skipComment (skipLines s.length s) with
    | [] => some []
    | _ =>
      match statement (skipLines s.length s) with
      | none => none
      | some (found, r) =>
        match skipComment (skipSpace r), lineBreak? r with
        | [], _ => some [found]
        | _, some r => (statements fuel r).map (found :: ·)
        | _, none => none

/-- Carries out statements; `here` is the table that lines belong to. -/
def build (here : List String) (m : Members) : List Statement → Option Members
  | [] => some m
  | .table path :: rest =>
    match m.define Members.openTable path with
    | some m => build path m rest
    | none => none
  | .item path :: rest =>
    match m.define Members.openItem path with
    | some m => build path m rest
    | none => none
  | .assign path v :: rest =>
    match m.within (Members.assign path v) here with
    | some m => build here m rest
    | none => none

/-- Drops a byte order mark. -/
def withoutMark : List Char → List Char
  | '\ufeff' :: r => r
  | s => s

def document? (text : String) : Option (List (String × Setting)) :=
  let s := withoutMark text.toList
  match ((statements (s.length + 1) s).bind (build [] [])).bind memberValues? with
  | none => none
  | some members =>
    match ofMembers? members with
    | some (.table members) => some members
    | _ => none

end DeadlockCapture.Toml
