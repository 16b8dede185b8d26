import DeadlockCapture.Proofs.Storage.Marks
import DeadlockCapture.Storage.Checkpoint

/-!
Where a path leads to a place that can be written, each operation on the path is an operation on
the text at that place. Only folders decide which place it is, so it stays the same while texts
come and go.
-/

namespace DeadlockCapture.Storage

namespace Files

variable {f g : Files} {p : WrittenPath} {place : Place}

/-- The files without the text at a place. -/
def remove (f : Files) (place : Place) : Files :=
  { f with texts := f.texts.filter (·.1 != place) }

theorem textAt?_remove (f : Files) (place other : Place) :
    (f.remove place).textAt? other = if other = place then none else f.textAt? other := by
  rw [textAt?, textAt?, remove, List.find?_filter]
  by_cases h : other = place
  · rw [if_pos h, Option.map_eq_none_iff, List.find?_eq_none]
    simp [h]
  · have hsame (t : Place × String) : (t.1 != place && t.1 == other) = (t.1 == other) := by
      by_cases ht : t.1 = other <;> simp [ht, h]
    simp only [if_neg h, Bool.decide_and, Bool.decide_eq_true, hsame]

theorem textAt?_put (f : Files) (place : Place) (text : String) (other : Place) :
    (f.put place text).textAt? other = if other = place then some text else f.textAt? other := by
  by_cases h : other = place
  · simp [textAt?, put, h]
  · have hremoved := textAt?_remove f place other
    rw [if_neg h, textAt?, remove] at hremoved
    rw [if_neg h, ← hremoved, textAt?, put, List.find?_cons_of_neg (by simp [Ne.symm h])]

theorem isFolder_congr (hfolders : g.folders = f.folders) (place : Place) :
    g.isFolder place = f.isFolder place := by
  rw [isFolder, isFolder, hfolders]

theorem enter_cons_eq_ok_iff {name : String} {rest : List String} {folder : Place} :
    f.enter folder (name :: rest) = .ok place ↔
      ∃ next, lookUp folder name = .ok next ∧ f.isFolder next = true ∧
        f.enter next rest = .ok place := by
  rw [enter]
  cases hstep : lookUp folder name with
  | error d => simp
  | ok next => by_cases hfolder : f.isFolder next = true <;> simp [hfolder]

theorem enter_congr (hfolders : g.folders = f.folders) {names : List String} {folder : Place}
    (h : f.enter folder names = .ok place) : g.enter folder names = .ok place := by
  induction names generalizing folder with
  | nil => exact h
  | cons name rest ih =>
      obtain ⟨next, hstep, hfolder, hrest⟩ := enter_cons_eq_ok_iff.1 h
      rw [← isFolder_congr hfolders] at hfolder
      exact enter_cons_eq_ok_iff.2 ⟨next, hstep, hfolder, ih hrest⟩

/-- The names that are followed along a path, and how the target there is named: what a path says
by itself, whatever files there are. -/
def way (p : WrittenPath) : Except Denial (List String × Option String × Bool) :=
  if p.text.toList.contains '\x00' then .error .strayNul
  else if p.text.isEmpty then .error .missing
  else if pathLimit < p.text.utf8ByteSize then .error .nameTooLong
  else
    match p.steps.getLast? with
    | none | some "/" | some "." | some ".." => .ok (p.names, none, true)
    | some name => .ok (p.names.dropLast, some name, p.endsInSlash)

theorem target_eq (f : Files) (p : WrittenPath) : f.target p = match way p with
    | .error d => .error d
    | .ok (names, name?, wantsFolder) =>
      (f.enter [] names).map fun folder => ⟨folder, name?, wantsFolder⟩ := by
  rw [target, way]
  split
  · rfl
  · split
    · rfl
    · split
      · rfl
      · split <;> simp_all

theorem names_of_way {names : List String} {name : String} {wantsFolder : Bool}
    (h : way p = .ok (names, some name, wantsFolder)) : names = p.names.dropLast := by
  rw [way] at h
  split at h
  · cases h
  · split at h
    · cases h
    · split at h
      · cases h
      · split at h <;> cases h
        rfl

/-- A target is found at the end of a way that leads through folders. -/
theorem target_eq_ok_iff {t : Target} : f.target p = .ok t ↔
    ∃ names, way p = .ok (names, t.name?, t.wantsFolder) ∧ f.enter [] names = .ok t.folder := by
  rw [target_eq]
  constructor
  · intro h
    cases hway : way p with
    | error d => rw [hway] at h; cases h
    | ok w =>
        cases henter : f.enter [] w.1 with
        | error d => simp only [hway, henter, Except.map] at h; cases h
        | ok folder =>
            simp only [hway, henter, Except.map] at h
            cases h
            exact ⟨w.1, rfl, henter⟩
  · rintro ⟨names, hway, henter⟩
    simp only [hway, henter, Except.map]

theorem target_congr (hfolders : g.folders = f.folders) {t : Target}
    (h : f.target p = .ok t) : g.target p = .ok t := by
  rw [target_eq_ok_iff] at h ⊢
  obtain ⟨names, hway, henter⟩ := h
  exact ⟨names, hway, enter_congr hfolders henter⟩

/-- A path that leads to a place to write leads there through folders, by a last name. -/
theorem newPlace_eq_ok_iff : f.newPlace p = .ok place ↔
    ∃ folder name, f.target p = .ok ⟨folder, some name, false⟩ ∧
      lookUp folder name = .ok place ∧ f.isFolder place = false := by
  constructor
  · intro h
    rw [newPlace] at h
    split at h
    · cases h
    · cases h
    · cases h
    · rename_i folder name htarget
      refine ⟨folder, name, htarget, ?_⟩
      cases hstep : lookUp folder name with
      | error d => simp only [hstep] at h; cases h
      | ok next =>
          simp only [hstep] at h
          split at h
          · cases h
          · rename_i hfolder
            cases h
            exact ⟨rfl, Bool.eq_false_iff.2 hfolder⟩
  · rintro ⟨folder, name, htarget, hstep, hfolder⟩
    simp only [newPlace, htarget, hstep, hfolder, Bool.false_eq_true, if_false]

theorem newPlace_congr (hfolders : g.folders = f.folders) (h : f.newPlace p = .ok place) :
    g.newPlace p = .ok place := by
  rw [newPlace_eq_ok_iff] at h ⊢
  obtain ⟨folder, name, htarget, hstep, hfolder⟩ := h
  rw [← isFolder_congr hfolders] at hfolder
  exact ⟨folder, name, target_congr hfolders htarget, hstep, hfolder⟩

theorem read_of_newPlace (h : f.newPlace p = .ok place) :
    f.read p = (f.textAt? place).elim (.error .missing) .ok := by
  obtain ⟨folder, name, htarget, hstep, hfolder⟩ := newPlace_eq_ok_iff.1 h
  simp only [read, htarget, hstep, hfolder, Bool.false_eq_true, if_false]
  cases f.textAt? place <;> rfl

theorem write_of_newPlace (h : f.newPlace p = .ok place) (text : String) :
    f.write p text = .ok (f.put place text) := by
  rw [write, h, Except.map]

theorem rename_of_newPlace {source : WrittenPath} {old : Place} {text : String}
    (hsource : f.newPlace source = .ok old) (h : f.newPlace p = .ok place)
    (htext : f.textAt? old = some text) :
    f.rename source p = .ok ((f.remove old).put place text) := by
  obtain ⟨folder, name, htarget, hstep, hfolder⟩ := newPlace_eq_ok_iff.1 h
  simp only [rename, hsource, htarget, moveTo, htext, hstep, hfolder, Bool.false_eq_true, if_false,
    remove]

theorem addFolders_of_enter {names : List String} {folder : Place}
    (h : f.enter folder names = .ok place) : f.addFolders folder names = (.ok (), f) := by
  induction names generalizing folder with
  | nil => rfl
  | cons name rest ih =>
      obtain ⟨next, hstep, hfolder, hrest⟩ := enter_cons_eq_ok_iff.1 h
      simp only [addFolders, hstep, hfolder, if_true, ih hrest]

/-- The folders above a place to write are there already. -/
theorem addParents_of_newPlace (h : f.newPlace p = .ok place) : f.addParents p = (.ok (), f) := by
  obtain ⟨folder, name, htarget, -⟩ := newPlace_eq_ok_iff.1 h
  obtain ⟨names, hway, henter⟩ := target_eq_ok_iff.1 htarget
  rw [addParents, ← names_of_way hway]
  exact addFolders_of_enter henter

end Files

/-- The path of a file of marks leads to a place, and so does that of the file beside it that a save
writes first. -/
structure Stands (files : Files) (path : WrittenPath) (place beside : Place) : Prop where
  file : files.newPlace path = .ok place
  temporary : files.newPlace (temporary path) = .ok beside

namespace Stands

variable {f g : Files} {path : WrittenPath} {place beside : Place} {mark : Mark} {marks : Marks}

theorem congr (hfolders : g.folders = f.folders) (h : Stands f path place beside) :
    Stands g path place beside :=
  ⟨Files.newPlace_congr hfolders h.file, Files.newPlace_congr hfolders h.temporary⟩

theorem marksIn_eq (h : Stands f path place beside) :
    marksIn f path = (f.textAt? place).elim (.ok .empty) fun text => marksOf (.ok text) := by
  rw [marksIn, Files.read_of_newPlace h.file]
  cases f.textAt? place <;> rfl

theorem marksIn_of_text (h : Stands f path place beside)
    (htext : f.textAt? place = some marks.text) : marksIn f path = .ok marks := by
  simp only [h.marksIn_eq, htext, Option.elim_some, marksOf, Marks.ofText_text]

theorem step_read (hmarks : marksIn f path = .ok marks) :
    SaveStage.step path mark f .read =
      (.ok (.makeFolders (marks.insert mark.instanceName mark.value).text), f) := by
  rw [SaveStage.step.eq_def]
  simp only [hmarks]

theorem step_makeFolders (h : Stands f path place beside) (content : String) :
    SaveStage.step path mark f (.makeFolders content) = (.ok (.writeTemporary content), f) := by
  rw [SaveStage.step.eq_def]
  simp only [Files.addParents_of_newPlace h.file]

theorem step_writeTemporary (h : Stands f path place beside) (content : String) :
    SaveStage.step path mark f (.writeTemporary content) =
      (.ok .rename, f.put beside content) := by
  rw [SaveStage.step.eq_def]
  simp only [Files.write_of_newPlace h.temporary]

theorem step_rename (h : Stands f path place beside) {content : String}
    (htext : f.textAt? beside = some content) :
    SaveStage.step path mark f .rename = (.ok .done, (f.remove beside).put place content) := by
  rw [SaveStage.step.eq_def]
  simp only [Files.rename_of_newPlace h.temporary h.file htext]

end Stands

end DeadlockCapture.Storage
