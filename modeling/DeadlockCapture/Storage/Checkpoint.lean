import DeadlockCapture.Mark
import DeadlockCapture.Storage.Files
import DeadlockCapture.Storage.Marks

/-!
Where marks survive between runs: in memory, or in a file that several instances may share. A save
to a file reads the marks, writes all of them to a file beside it and moves that file over the old
one, so that no reader ever meets half a table.
-/

namespace DeadlockCapture.Storage

open Time (Instant)

/-- Why marks cannot be loaded or saved. -/
inductive CheckpointFault where
  | denied (d : Denial)
  | corrupt
deriving DecidableEq, Repr

def CheckpointFault.message : CheckpointFault → String
  | .denied d => "Checkpoint I/O error: " ++ d.message
  | .corrupt => "Checkpoint file is corrupt"

/-- The marks in a file that is read or refused. A file that is not there holds none. -/
def marksOf : Except Denial String → Except CheckpointFault Marks
  | .ok content =>
    match Marks.ofText content with
    | .ok marks => .ok marks
    | .error _ => .error .corrupt
  | .error .missing => .ok .empty
  | .error d => .error (.denied d)

def marksIn (files : Files) (path : WrittenPath) : Except CheckpointFault Marks :=
  marksOf (files.read path)

/-- The file beside a file of marks that a save writes first. -/
def temporary (path : WrittenPath) : WrittenPath :=
  path.withExtension "tmp"

inductive SaveStage where
  | read
  | makeFolders (content : String)
  | writeTemporary (content : String)
  | rename
  | done
deriving DecidableEq, Repr

def SaveStage.step (path : WrittenPath) (mark : Mark) (files : Files) :
    SaveStage → Except CheckpointFault SaveStage × Files
  | .read =>
    match marksIn files path with
    | .error f => (.error f, files)
    | .ok marks => (.ok (.makeFolders (marks.insert mark.instanceName mark.value).text), files)
  | .makeFolders content =>
    match files.addParents path with
    | (.error d, files) => (.error (.denied d), files)
    | (.ok (), files) => (.ok (.writeTemporary content), files)
  | .writeTemporary content =>
    match files.write (temporary path) content with
    | .error d => (.error (.denied d), files)
    | .ok files => (.ok .rename, files)
  | .rename =>
    match files.rename (temporary path) path with
    | .error d => (.error (.denied d), files)
    | .ok files => (.ok .done, files)
  | .done => (.ok .done, files)

/-- Several steps of a save, up to one that fails. The files are as the last step left them. -/
def saveSteps (path : WrittenPath) (mark : Mark) :
    Nat → SaveStage → Files → Except CheckpointFault SaveStage × Files
  | 0, stage, files => (.ok stage, files)
  | n + 1, stage, files =>
    match stage.step path mark files with
    | (.error f, files) => (.error f, files)
    | (.ok stage, files) => saveSteps path mark n stage files

inductive Store where
  | memory (marks : Marks)
  | file (path : WrittenPath)

namespace Store

def load (s : Store) (files : Files) (name : String) : Except CheckpointFault (Option Instant) :=
  match s with
  | .memory marks => .ok (marks.get? name)
  | .file path => (marksIn files path).map (·.get? name)

/-- What a save leaves: the fault that stopped it, the store, and the files. -/
structure Saved where
  fault? : Option CheckpointFault
  store : Store
  files : Files

def save (s : Store) (files : Files) (mark : Mark) : Saved :=
  match s with
  | .memory marks => ⟨none, .memory (marks.insert mark.instanceName mark.value), files⟩
  | .file path =>
    match saveSteps path mark 4 .read files with
    | (.ok _, files) => ⟨none, s, files⟩
    | (.error f, files) => ⟨some f, s, files⟩

end Store

end DeadlockCapture.Storage
