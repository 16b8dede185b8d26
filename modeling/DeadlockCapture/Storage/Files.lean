import DeadlockCapture.Storage.Path

/-!
Text files in folders. A path is followed step by step from the folder where the program runs, and
each step but the last must lead to a folder.
-/

namespace DeadlockCapture.Storage

/-- A place in the tree of folders, by the names from the folder where the program runs. The names
`..` and `/` stand for the folder above that one and for the top. -/
abbrev Place := List String

def Place.above (place : Place) : Place :=
  match place.getLast? with
  | none | some ".." => place ++ [".."]
  | some "/" => place
  | some _ => place.dropLast

structure Files where
  texts : List (Place × String) := []
  folders : List Place := []
deriving DecidableEq, Repr

def nameLimit : Nat :=
  255

def pathLimit : Nat :=
  4095

/-- Where the last step of a path sets out, and the name it leads to. There is no name when the step
stays or goes above. -/
structure Target where
  folder : Place
  name? : Option String
  wantsFolder : Bool

namespace Files

def textAt? (f : Files) (place : Place) : Option String :=
  (f.texts.find? (·.1 == place)).map (·.2)

/-- The place is a folder. The folder where the program runs, those above it and the top always
are. -/
def isFolder (f : Files) (place : Place) : Bool :=
  place.all (fun name => name == ".." || name == "/") || f.folders.contains place

def lookUp (folder : Place) (name : String) : Except Denial Place :=
  if name = ".." then .ok (Place.above folder)
  else if nameLimit < name.utf8ByteSize then .error .nameTooLong
  else .ok (folder ++ [name])

def enter (f : Files) (folder : Place) : List String → Except Denial Place
  | [] => .ok folder
  | name :: rest =>
    match lookUp folder name with
    | .error d => .error d
    | .ok place =>
      if f.isFolder place then f.enter place rest
      else .error (if (f.textAt? place).isSome then .notFolder else .missing)

def target (f : Files) (p : WrittenPath) : Except Denial Target :=
  if p.text.toList.contains '\x00' then .error .strayNul
  else if p.text.isEmpty then .error .missing
  else if pathLimit < p.text.utf8ByteSize then .error .nameTooLong
  else
    match p.steps.getLast? with
    | none | some "/" | some "." | some ".." =>
      (f.enter [] p.names).map fun folder => ⟨folder, none, true⟩
    | some name =>
      (f.enter [] p.names.dropLast).map fun folder => ⟨folder, some name, p.endsInSlash⟩

def read (f : Files) (p : WrittenPath) : Except Denial String :=
  match f.target p with
  | .error d => .error d
  | .ok ⟨_, none, _⟩ => .error .isFolder
  | .ok ⟨folder, some name, wantsFolder⟩ =>
    match lookUp folder name with
    | .error d => .error d
    | .ok place =>
      match f.textAt? place with
      | some text => if wantsFolder then .error .notFolder else .ok text
      | none => .error (if f.isFolder place then .isFolder else .missing)

def newPlace (f : Files) (p : WrittenPath) : Except Denial Place :=
  match f.target p with
  | .error d => .error d
  | .ok ⟨_, none, _⟩ | .ok ⟨_, _, true⟩ => .error .isFolder
  | .ok ⟨folder, some name, false⟩ =>
    match lookUp folder name with
    | .error d => .error d
    | .ok place => if f.isFolder place then .error .isFolder else .ok place

def put (f : Files) (place : Place) (text : String) : Files :=
  { f with texts := (place, text) :: f.texts.filter (·.1 != place) }

def write (f : Files) (p : WrittenPath) (text : String) : Except Denial Files :=
  (f.newPlace p).map fun place => f.put place text

/-- Writes at the end of a file, which need not be there. -/
def append (f : Files) (p : WrittenPath) (text : String) : Except Denial Files :=
  (f.newPlace p).map fun place => f.put place ((f.textAt? place).getD "" ++ text)

/-- Moves the file at a place to a target, over what is there. -/
def moveTo (f : Files) (source : Place) (target : Target) : Except Denial Files :=
  match f.textAt? source, target.name? with
  | _, none => .error .busy
  | none, _ => .error .missing
  | some text, some name =>
    match lookUp target.folder name with
    | .error d => .error d
    | .ok place =>
      if target.wantsFolder then .error .notFolder
      else if f.isFolder place then .error .isFolder
      else .ok ({ f with texts := f.texts.filter (·.1 != source) }.put place text)

def rename (f : Files) (source target : WrittenPath) : Except Denial Files :=
  match f.newPlace source, f.target target with
  | .error d, _ => .error d
  | _, .error d => .error d
  | .ok place, .ok target => f.moveTo place target

/-- Adds folders along names, up to one that cannot be added. -/
def addFolders (f : Files) (folder : Place) : List String → Except Denial Unit × Files
  | [] => (.ok (), f)
  | name :: rest =>
    match lookUp folder name with
    | .error d => (.error d, f)
    | .ok place =>
      if f.isFolder place then f.addFolders place rest
      else if (f.textAt? place).isSome then (.error .exists, f)
      else { f with folders := place :: f.folders }.addFolders place rest

def addParents (f : Files) (p : WrittenPath) : Except Denial Unit × Files :=
  f.addFolders [] p.names.dropLast

end Files

end DeadlockCapture.Storage
