/-!
Paths to files, and how the operating system words its refusals. A path is a text of steps with
slashes between them; the step `.` stays where it is, and the step `..` goes to the folder above.
-/

namespace DeadlockCapture.Storage

/-- Why the operating system refuses an operation. -/
inductive Denial where
  | missing
  | exists
  | notFolder
  | isFolder
  | busy
  | nameTooLong
  | strayNul
  | unreachable
  | noAddress
  /-- What follows the last colon of an address is no number of 16 bits. -/
  | noService
  | other (reason : String)
deriving DecidableEq, Repr

def Denial.message : Denial → String
  | .missing => "No such file or directory (os error 2)"
  | .busy => "Device or resource busy (os error 16)"
  | .exists => "File exists (os error 17)"
  | .notFolder => "Not a directory (os error 20)"
  | .isFolder => "Is a directory (os error 21)"
  | .nameTooLong => "File name too long (os error 36)"
  | .unreachable => "Network is unreachable (os error 101)"
  | .strayNul => "file name contained an unexpected NUL byte"
  | .noAddress => "invalid socket address"
  | .noService => "invalid port value"
  | .other reason => reason

structure WrittenPath where
  text : String
deriving DecidableEq, Repr

def segments : List Char → List (List Char)
  | [] => [[]]
  | c :: r =>
    if c = '/' then [] :: segments r
    else
      match segments r with
      | [] => [[c]]
      | s :: rest => (c :: s) :: rest

/-- Drops the slashes and the steps `.` at the end of a path that is written backwards. -/
def dropRest : List Char → List Char
  | '/' :: r => dropRest r
  | '.' :: '/' :: r => dropRest r
  | r => r

/-- How many characters of a name stand before its extension. -/
def stemLength (name : List Char) : Nat :=
  let extension := (name.reverse.takeWhile (· ≠ '.')).length
  if extension + 1 < name.length then name.length - extension - 1 else name.length

namespace WrittenPath

/-- The steps of a path; a slash in front is a step of its own. -/
def steps (p : WrittenPath) : List String :=
  let parts := ((segments p.text.toList).filter (!·.isEmpty)).map String.ofList
  if p.text.toList.head? = some '/' then "/" :: parts else parts

def names (p : WrittenPath) : List String :=
  p.steps.filter (· ≠ ".")

def endsInSlash (p : WrittenPath) : Bool :=
  p.text.toList.getLast? == some '/'

/-- What stands before the last step that leads elsewhere. -/
def front (p : WrittenPath) : List Char :=
  ((dropRest p.text.toList.reverse).dropWhile (· ≠ '/')).reverse

/-- The name of the file that a path leads to, unless it leads to a folder above or stays. -/
def fileName? (p : WrittenPath) : Option (List Char) :=
  let name := ((dropRest p.text.toList.reverse).takeWhile (· ≠ '/')).reverse
  if name = [] ∨ name = ['.'] ∨ name = ['.', '.'] then none else some name

def extension? (p : WrittenPath) : Option String :=
  match p.fileName? with
  | none => none
  | some name =>
    if stemLength name < name.length then some (String.ofList (name.drop (stemLength name + 1)))
    else none

/-- The path with another extension. It loses the old one before it gets the new one, and a name
such as `..tmp` then leads to the folder above and gets none. -/
def withExtension (p : WrittenPath) (extension : String) : WrittenPath :=
  match p.fileName? with
  | none => p
  | some name =>
    let stem := name.take (stemLength name)
    if stem = ['.'] ∧ p.text.toList = p.front ++ name then ⟨String.ofList (p.front ++ ['.', '.'])⟩
    else ⟨String.ofList (p.front ++ stem ++ ['.']) ++ extension⟩

def addExtension (p : WrittenPath) (extension : String) : WrittenPath :=
  match p.fileName? with
  | none => p
  | some name => ⟨String.ofList (p.front ++ name ++ ['.']) ++ extension⟩

/-- The folder that a path leads through last, as it is written. -/
def folder? (p : WrittenPath) : Option String :=
  if p.front.isEmpty then none else some (String.ofList p.front)

end WrittenPath

end DeadlockCapture.Storage
