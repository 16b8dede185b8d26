import DeadlockCapture.Proofs.Storage.Places

/-!
A file of marks answers as a table in memory does: each load finds the last mark that was saved for
its instance, whatever was saved for others and however often the file was opened anew. This needs
the file system to grant a place for the file beside that a save writes first. The path `..json`
shows what the grant is for: the file beside it would be the folder above, and every save fails.
-/

namespace DeadlockCapture.Storage

open Time (Instant)

/-- What is asked of a store. -/
inductive Request where
  | load (name : String)
  | save (mark : Mark)
  | reopen

inductive Answer where
  | loaded (found : Except CheckpointFault (Option Instant))
  | saved (fault? : Option CheckpointFault)
  | reopened

/-- The store that is opened where another one was. What is in memory stays there. -/
def Store.reopened : Store → Store
  | .memory marks => .memory marks
  | .file path => .file path

/-- The answer to a request, and the store and the files after it. -/
def Store.serve (s : Store) (files : Files) : Request → Answer × Store × Files
  | .load name => (.loaded (s.load files name), s, files)
  | .save mark => (.saved (s.save files mark).fault?, (s.save files mark).store,
      (s.save files mark).files)
  | .reopen => (.reopened, s.reopened, files)

def Store.serveAll (s : Store) (files : Files) : List Request → List Answer
  | [] => []
  | r :: rest =>
    (s.serve files r).1 :: (s.serve files r).2.1.serveAll (s.serve files r).2.2 rest

/-- The mark that a request saves for an instance. -/
def Request.markOf? (name : String) : Request → Option Instant
  | .save mark => if name = mark.instanceName then some mark.value else none
  | .load _ | .reopen => none

/-- The last mark saved for an instance. -/
def lastSaved (past : List Request) (name : String) : Option Instant :=
  past.reverse.findSome? (·.markOf? name)

/-- The answer that is due to a request after others: no fault, and the last mark saved. -/
def Request.due (past : List Request) : Request → Answer
  | .load name => .loaded (.ok (lastSaved past name))
  | .save _ => .saved none
  | .reopen => .reopened

def dueAfter (past : List Request) : List Request → List Answer
  | [] => []
  | r :: rest => r.due past :: dueAfter (past ++ [r]) rest

theorem lastSaved_concat (past : List Request) (r : Request) (name : String) :
    lastSaved (past ++ [r]) name = (r.markOf? name).or (lastSaved past name) := by
  simp only [lastSaved, List.reverse_append, List.reverse_singleton, List.singleton_append,
    List.findSome?_cons]
  cases r.markOf? name <;> rfl

/-- The file of a path can be written, as can the file beside it, once the folders above it are
made. -/
def Grants (files : Files) (path : WrittenPath) : Prop :=
  ∃ made, files.addParents path = (.ok (), made) ∧ ∃ place beside, Stands made path place beside

/-- The marks of a store. Those of a file can be read and replaced. -/
def Store.Holds (s : Store) (files : Files) (marks : Marks) : Prop :=
  match s with
  | .memory kept => kept = marks
  | .file path => marksIn files path = .ok marks ∧ Grants files path

namespace Store.Holds

variable {s : Store} {files : Files} {path : WrittenPath} {marks : Marks}

theorem load_eq (h : s.Holds files marks) (name : String) :
    s.load files name = .ok (marks.get? name) := by
  cases s with
  | memory kept =>
      cases h
      rfl
  | file path => rw [Store.load, h.1, Except.map]

/-- A save to a file replaces its text by that of the new table. -/
theorem save_file (h : (Store.file path).Holds files marks) (mark : Mark) :
    ∃ next, (Store.file path).save files mark = ⟨none, .file path, next⟩ ∧
      (Store.file path).Holds next (marks.insert mark.instanceName mark.value) := by
  obtain ⟨hmarks, made, hparents, place, beside, hplaces⟩ := h
  generalize htable : marks.insert mark.instanceName mark.value = table
  have hwritten : Stands (made.put beside table.text) path place beside :=
    Stands.congr (f := made) rfl hplaces
  have htext : (made.put beside table.text).textAt? beside = some table.text := by
    rw [Files.textAt?_put, if_pos rfl]
  have hmoved : Stands (((made.put beside table.text).remove beside).put place table.text) path
      place beside := Stands.congr (f := made) rfl hplaces
  refine ⟨((made.put beside table.text).remove beside).put place table.text, ?_, ?_⟩
  · have hmake : SaveStage.step path mark files (.makeFolders table.text) =
        (.ok (.writeTemporary table.text), made) := by
      rw [SaveStage.step.eq_def]
      simp only [hparents]
    simp only [Store.save, saveSteps, Stands.step_read hmarks, htable, hmake,
      hplaces.step_writeTemporary, hwritten.step_rename htext]
  · refine ⟨hmoved.marksIn_of_text ?_, _, Files.addParents_of_newPlace hmoved.file, _, _, hmoved⟩
    rw [Files.textAt?_put, if_pos rfl]

theorem save (h : s.Holds files marks) (mark : Mark) :
    (s.save files mark).fault? = none ∧
      (s.save files mark).store.Holds (s.save files mark).files
        (marks.insert mark.instanceName mark.value) := by
  cases s with
  | memory kept =>
      cases h
      exact ⟨rfl, rfl⟩
  | file path =>
      obtain ⟨next, hsave, hholds⟩ := h.save_file mark
      rw [hsave]
      exact ⟨rfl, hholds⟩

theorem reopened (h : s.Holds files marks) : s.reopened.Holds files marks := by
  cases s with
  | memory kept => exact h
  | file path => exact h

end Store.Holds

/-- A store holds the last mark that was saved for each instance. -/
def Store.Remembers (s : Store) (files : Files) (past : List Request) : Prop :=
  ∃ marks, s.Holds files marks ∧ ∀ name, marks.get? name = lastSaved past name

/-- A store that remembers answers as is due, and remembers the request as well. -/
theorem Store.Remembers.serve {s : Store} {files : Files} {past : List Request}
    (h : s.Remembers files past) (r : Request) :
    (s.serve files r).1 = r.due past ∧
      (s.serve files r).2.1.Remembers (s.serve files r).2.2 (past ++ [r]) := by
  obtain ⟨marks, hholds, hlast⟩ := h
  cases r with
  | load name =>
      refine ⟨?_, marks, hholds, fun other => ?_⟩
      · rw [Store.serve, hholds.load_eq, hlast, Request.due]
      · rw [hlast, lastSaved_concat, Request.markOf?, Option.none_or]
  | save mark =>
      obtain ⟨hfault, hsaved⟩ := hholds.save mark
      refine ⟨?_, marks.insert mark.instanceName mark.value, hsaved, fun other => ?_⟩
      · rw [Store.serve, hfault, Request.due]
      · rw [Marks.get?_insert, lastSaved_concat, Request.markOf?, hlast]
        split <;> rfl
  | reopen =>
      refine ⟨rfl, marks, hholds.reopened, fun other => ?_⟩
      rw [hlast, lastSaved_concat, Request.markOf?, Option.none_or]

theorem Store.Remembers.serveAll {s : Store} {files : Files} {past : List Request}
    (h : s.Remembers files past) (requests : List Request) :
    s.serveAll files requests = dueAfter past requests := by
  induction requests generalizing s files past with
  | nil => rfl
  | cons r rest ih =>
      obtain ⟨hanswer, hnext⟩ := h.serve r
      rw [Store.serveAll, hanswer, ih hnext, dueAfter]

/-- A file that is missing or blank, and that can be written, answers every sequence of requests as
a table in memory that is empty at first: no request fails, and a load finds the last mark saved for
its instance. -/
theorem file_answers_as_memory {files : Files} {path : WrittenPath}
    (hblank : files.read path = .error .missing ∨
      ∃ content, files.read path = .ok content ∧ Text.allBlank content = true)
    (hgrants : Grants files path) (requests : List Request) :
    (Store.file path).serveAll files requests = (Store.memory .empty).serveAll files requests ∧
      (Store.file path).serveAll files requests = dueAfter [] requests := by
  have hempty : marksIn files path = .ok .empty := by
    rcases hblank with hmissing | ⟨content, hcontent, hall⟩
    · rw [marksIn, hmissing, marksOf]
    · simp only [marksIn, hcontent, marksOf, Marks.ofText_of_allBlank hall]
  have hfile : (Store.file path).Remembers files [] :=
    ⟨.empty, ⟨hempty, hgrants⟩, fun _ => rfl⟩
  have hmemory : (Store.memory .empty).Remembers files [] := ⟨.empty, rfl, fun _ => rfl⟩
  rw [hfile.serveAll, hmemory.serveAll]
  exact ⟨rfl, rfl⟩

/-- Requests about two instances, with a save for each and the file opened anew between. -/
def sampleRequests : List Request :=
  [.load "primary", .save ⟨"primary", .epoch⟩, .save ⟨"replica", .epoch⟩, .reopen, .load "primary",
    .load "other"]

def sampleFile : WrittenPath :=
  ⟨"marks.json"⟩

theorem sampleFile_granted : Grants {} sampleFile :=
  ⟨{}, rfl, ["marks.json"], ["marks.tmp"], rfl, rfl⟩

theorem sample_file_answers_as_memory :
    (({} : Files).read sampleFile = .error .missing ∧ Grants {} sampleFile) ∧
      (Store.file sampleFile).serveAll {} sampleRequests =
        (Store.memory .empty).serveAll {} sampleRequests ∧
      (Store.file sampleFile).serveAll {} sampleRequests =
        [.loaded (.ok none), .saved none, .saved none, .reopened, .loaded (.ok (some .epoch)),
          .loaded (.ok none)] := by
  have hmissing : ({} : Files).read sampleFile = .error .missing := rfl
  obtain ⟨hmemory, hdue⟩ :=
    file_answers_as_memory (.inl hmissing) sampleFile_granted sampleRequests
  exact ⟨⟨hmissing, sampleFile_granted⟩, hmemory, hdue.trans rfl⟩

/-- The file beside `..json` would be the folder above, so that no save to it is kept, although it
is as good a name as any for a file that is not there yet. -/
theorem dotted_file_refuses_saves :
    ({} : Files).read ⟨"..json"⟩ = .error .missing ∧
      (Store.file ⟨"..json"⟩).serveAll {} [.save ⟨"primary", .epoch⟩, .load "primary"] =
        [.saved (some (.denied .isFolder)), .loaded (.ok none)] ∧
      (Store.memory .empty).serveAll {} [.save ⟨"primary", .epoch⟩, .load "primary"] =
        [.saved none, .loaded (.ok (some .epoch))] :=
  ⟨rfl, rfl, rfl⟩

end DeadlockCapture.Storage
