import DeadlockCapture.Proofs.Storage.Steady

/-!
Saves that fail or are cut off. Whatever the step, the file of marks holds the text that it held or
the whole text of the new table, so that a load answers as before the save or as after it. This
needs the path to lead to the same place throughout the save, and a save makes folders: where a
folder is missing, names that lead above it or that are too long are first met once it is made.
-/

namespace DeadlockCapture.Storage

/-- How a step of a save may go: what it leads to, and what it leaves. -/
inductive SaveStage.Course (path : WrittenPath) (mark : Mark) (files : Files) :
    SaveStage → Except CheckpointFault SaveStage × Files → Prop
  | unread {fault : CheckpointFault} (h : marksIn files path = .error fault) :
    Course path mark files .read (.error fault, files)
  | read {marks : Marks} (h : marksIn files path = .ok marks) :
    Course path mark files .read
      (.ok (.makeFolders (marks.insert mark.instanceName mark.value).text), files)
  | unmade {content : String} {d : Denial} (h : (files.addParents path).1 = .error d) :
    Course path mark files (.makeFolders content)
      (.error (.denied d), (files.addParents path).2)
  | made {content : String} (h : (files.addParents path).1 = .ok ()) :
    Course path mark files (.makeFolders content)
      (.ok (.writeTemporary content), (files.addParents path).2)
  | unwritten {content : String} {d : Denial}
    (h : files.write (temporary path) content = .error d) :
    Course path mark files (.writeTemporary content) (.error (.denied d), files)
  | written {content : String} {next : Files}
    (h : files.write (temporary path) content = .ok next) :
    Course path mark files (.writeTemporary content) (.ok .rename, next)
  | unmoved {d : Denial} (h : files.rename (temporary path) path = .error d) :
    Course path mark files .rename (.error (.denied d), files)
  | moved {next : Files} (h : files.rename (temporary path) path = .ok next) :
    Course path mark files .rename (.ok .done, next)
  | done : Course path mark files .done (.ok .done, files)

theorem SaveStage.step_course (path : WrittenPath) (mark : Mark) (files : Files)
    (stage : SaveStage) : stage.Course path mark files (stage.step path mark files) := by
  rw [SaveStage.step.eq_def]
  cases stage with
  | read =>
      cases hmarks : marksIn files path with
      | error fault => exact .unread hmarks
      | ok marks => exact .read hmarks
  | makeFolders content =>
      cases hmade : files.addParents path with
      | mk result next =>
          obtain rfl : (files.addParents path).2 = next := congrArg Prod.snd hmade
          cases result with
          | error d => exact .unmade (congrArg Prod.fst hmade)
          | ok u => exact .made (congrArg Prod.fst hmade)
  | writeTemporary content =>
      cases hwrite : files.write (temporary path) content with
      | error d =>
          simp only [hwrite]
          exact .unwritten hwrite
      | ok next =>
          simp only [hwrite]
          exact .written hwrite
  | rename =>
      cases hrename : files.rename (temporary path) path with
      | error d => exact .unmoved hrename
      | ok next => exact .moved hrename
  | done => exact .done

/-- What a step of a save may leave that is cut off in its midst. -/
inductive SaveStage.Leaves (path : WrittenPath) (files : Files) : SaveStage → Files → Prop
  | untouched (stage : SaveStage) : Leaves path files stage files
  | folders (content : String) (k : Nat) :
    Leaves path files (.makeFolders content) (files.addFolders [] (path.names.dropLast.take k)).2
  | part {content text : String} {next : Files}
    (h : files.write (temporary path) text = .ok next) :
    Leaves path files (.writeTemporary content) next

/-- The files that a save leaves which fails or is cut off, after however many of its steps. -/
inductive Interrupted (path : WrittenPath) (mark : Mark) (files : Files) : Files → Prop
  | failed {n : Nat} {fault : CheckpointFault} {next : Files}
    (h : saveSteps path mark n .read files = (.error fault, next)) :
    Interrupted path mark files next
  | cutOff {n : Nat} {stage : SaveStage} {reached next : Files}
    (h : saveSteps path mark n .read files = (.ok stage, reached))
    (hleaves : stage.Leaves path reached next) : Interrupted path mark files next

/-- Behind a folder that is missing on the way no name leads above a folder or is too long. -/
def LeadsOn (files : Files) (path : WrittenPath) : Prop :=
  ∀ front rest, path.names = front ++ rest → files.enter [] front = .error .missing →
    ∀ name ∈ rest, Files.PlainName name

theorem leadsOn_of_plain {path : WrittenPath} (h : ∀ name ∈ path.names, Files.PlainName name)
    (files : Files) : LeadsOn files path := by
  intro front rest hsplit _ name hname
  exact h name (hsplit ▸ List.mem_append_right front hname)

section

variable {path : WrittenPath} {mark : Mark} {marks : Marks} {files next : Files} {content : String}
  {stage : SaveStage} {result : Except CheckpointFault SaveStage × Files}

theorem way_of_names (h : (temporary path).names ≠ path.names) :
    Files.way path ≠ .error .missing := by
  intro hway
  rw [Files.way] at hway
  split at hway
  · cases hway
  · split at hway
    · rename_i hempty
      obtain ⟨text⟩ := path
      obtain rfl : text = "" := String.isEmpty_iff.1 hempty
      exact h rfl
    · split at hway
      · cases hway
      · split at hway <;> cases hway

/-- A path that leads nowhere, as something is missing, stops at a folder on its way. -/
theorem enter_of_target (hnames : (temporary path).names ≠ path.names)
    (htarget : files.target path = .error .missing) :
    ∃ names name? wantsFolder, Files.way path = .ok (names, name?, wantsFolder) ∧
      files.enter [] names = .error .missing := by
  rw [Files.target_eq] at htarget
  cases hway : Files.way path with
  | error d =>
      rw [hway] at htarget
      obtain rfl : d = .missing := Except.error.inj htarget
      exact absurd hway (way_of_names hnames)
  | ok w =>
      obtain ⟨names, name?, wantsFolder⟩ := w
      refine ⟨names, name?, wantsFolder, rfl, ?_⟩
      rw [hway] at htarget
      cases henter : files.enter [] names with
      | ok folder => simp [henter, Except.map] at htarget
      | error d => simpa [henter, Except.map] using htarget

theorem steady_of_marksIn (hrooted : files.Rooted) (hnames : (temporary path).names ≠ path.names)
    (hleads : LeadsOn files path) (hmarks : marksIn files path = .ok marks) :
    files.Steady path := by
  cases htarget : files.target path with
  | ok t => exact .inl ⟨t, htarget⟩
  | error d =>
      obtain rfl : d = .missing := by
        rw [marksIn, Files.read, htarget] at hmarks
        cases d <;> first | rfl | cases hmarks
      obtain ⟨names, name?, wantsFolder, hway, henter⟩ := enter_of_target hnames htarget
      obtain ⟨front, last, middle, folder, base, rfl, hfront, hlast, hmissing, hnone⟩ :=
        Files.missing_of_enter henter
      obtain ⟨rest, hrest⟩ := Files.names_prefix_of_way hway
      have hsplit : path.names = front ++ last :: (middle ++ rest) := by
        rw [hrest, List.append_assoc, List.cons_append]
      have hstop : files.enter [] (front ++ [last]) = .error .missing := by
        simp only [Files.enter_append, hfront, Files.enter, hlast, hmissing, hnone]
        rfl
      have hplain := hleads (front ++ [last]) (middle ++ rest)
        (by rw [hsplit, List.append_assoc, List.singleton_append]) hstop
      exact .inr ⟨front, last, middle ++ rest, folder, base, hsplit,
        ⟨middle, name?, wantsFolder, hway⟩, hfront, hlast, hplain,
        hrooted.vacant hmissing hnone (middle ++ rest)⟩

/-- A save has reached a stage, or it has failed. -/
def Outcome (reached : SaveStage → Files → Prop) (failed : Files → Prop) :
    Except CheckpointFault SaveStage × Files → Prop
  | (.ok stage, files) => reached stage files
  | (.error _, files) => failed files

/-- What holds after each step holds after any number of them. -/
theorem Outcome.run {reached : SaveStage → Files → Prop} {failed : Files → Prop}
    (hstep : ∀ {stage files result}, reached stage files →
      SaveStage.Course path mark files stage result → Outcome reached failed result)
    (n : Nat) (h : reached stage files) :
    Outcome reached failed (saveSteps path mark n stage files) := by
  induction n generalizing stage files with
  | zero => exact h
  | succ n ih =>
      have hnext := hstep h (stage.step_course path mark files)
      rw [saveSteps]
      cases hresult : stage.step path mark files with
      | mk result after =>
          rw [hresult] at hnext
          cases result with
          | error fault => exact hnext
          | ok stage => exact ih hnext

/-- A save that stops before its end has failed, or a step of it has been cut off that it had
reached. -/
theorem Interrupted.outcome (reached : SaveStage → Files → Prop) (failed : Files → Prop)
    (hstep : ∀ {stage files result}, reached stage files →
      SaveStage.Course path mark files stage result → Outcome reached failed result)
    (hstart : reached .read files) (h : Interrupted path mark files next) :
    failed next ∨ ∃ stage before, reached stage before ∧ stage.Leaves path before next := by
  cases h with
  | @failed n _ _ hrun =>
      have hreached := Outcome.run hstep n hstart
      rw [hrun] at hreached
      exact .inl hreached
  | @cutOff n stage before _ hrun hleaves =>
      have hreached := Outcome.run hstep n hstart
      rw [hrun] at hreached
      exact .inr ⟨stage, before, hreached, hleaves⟩

/-- The file holds the text that it held, or another text that a save had to write. -/
def Kept (path : WrittenPath) (files : Files) (content : String) (next : Files) : Prop :=
  next.read path = files.read path ∨ next.read path = .ok content

/-- How the files stand at a stage of a save of a text. -/
def SaveStage.Progress (path : WrittenPath) (files : Files) (content : String) :
    SaveStage → Files → Prop
  | .read, next => next = files
  | .makeFolders text, next => text = content ∧ next = files
  | .writeTemporary text, next => text = content ∧ next = (files.addParents path).2
  | .rename, next => next.read path = files.read path ∧
      ∃ beside, next.newPlace (temporary path) = .ok beside ∧ next.textAt? beside = some content
  | .done, next => next.read path = .ok content

/-- A step of a save goes on or leaves the file with one of the two texts. -/
theorem SaveStage.Progress.step (hsteady : files.Steady path)
    (hnames : (temporary path).names ≠ path.names) (hmarks : marksIn files path = .ok marks)
    (h : stage.Progress path files (marks.insert mark.instanceName mark.value).text next)
    (hcourse : stage.Course path mark next result) :
    Outcome (Progress path files (marks.insert mark.instanceName mark.value).text)
      (Kept path files (marks.insert mark.instanceName mark.value).text) result := by
  have hmade := hsteady.addParents
  cases hcourse with
  | unread _ =>
      obtain rfl : next = files := h
      exact .inl rfl
  | read hfound =>
      obtain rfl : next = files := h
      obtain rfl : marks = _ := Except.ok.inj (hmarks.symm.trans hfound)
      exact ⟨rfl, rfl⟩
  | unmade _ =>
      obtain ⟨-, rfl⟩ := h
      exact .inl hmade.2
  | made _ =>
      obtain ⟨rfl, rfl⟩ := h
      exact ⟨rfl, rfl⟩
  | unwritten _ =>
      obtain ⟨-, rfl⟩ := h
      exact .inl hmade.2
  | written hwrite =>
      obtain ⟨rfl, rfl⟩ := h
      obtain ⟨beside, hbeside, rfl⟩ := Files.write_eq_ok hwrite
      refine ⟨(hmade.1.put hnames hbeside _).2.trans hmade.2, beside, ?_, ?_⟩
      · exact Files.newPlace_congr (f := (files.addParents path).2) rfl hbeside
      · rw [Files.textAt?_put, if_pos rfl]
  | unmoved _ => exact .inl h.1
  | moved hrename =>
      obtain ⟨-, beside, hbeside, htext⟩ := h
      exact Files.read_of_rename hbeside htext hrename
  | done => exact h

/-- A stage that is reached leaves the file with one of the two texts even when its step is cut off
in its midst. -/
theorem SaveStage.Progress.leaves (hsteady : files.Steady path)
    (hnames : (temporary path).names ≠ path.names) {reached : Files}
    (h : stage.Progress path files content reached) (hleaves : stage.Leaves path reached next) :
    Kept path files content next := by
  have hmade := hsteady.addParents
  cases hleaves with
  | untouched stage =>
      cases stage with
      | read => exact .inl (congrArg (Files.read · path) h)
      | makeFolders text => exact .inl (congrArg (Files.read · path) h.2)
      | writeTemporary text => exact .inl (h.2 ▸ hmade.2)
      | rename => exact .inl h.1
      | done => exact .inr h
  | folders text k =>
      obtain ⟨-, rfl⟩ := h
      exact .inl (hsteady.addFolders k).2
  | @part content text _ hwrite =>
      obtain ⟨-, rfl⟩ := h
      obtain ⟨beside, hbeside, rfl⟩ := Files.write_eq_ok hwrite
      exact .inl ((hmade.1.put hnames hbeside _).2.trans hmade.2)

theorem step_read_of_unreadable {fault : CheckpointFault}
    (hmarks : marksIn files path = .error fault) :
    SaveStage.step path mark files .read = (.error fault, files) := by
  rw [SaveStage.step.eq_def]
  simp only [hmarks]

/-- A save of a table that cannot be read fails and leaves all files as they are. -/
theorem save_of_unreadable {fault : CheckpointFault} (hmarks : marksIn files path = .error fault) :
    (Store.file path).save files mark = ⟨some fault, .file path, files⟩ := by
  simp only [Store.save, saveSteps, step_read_of_unreadable hmarks]

/-- A save that stops before its end leaves the file with one of the two texts, the old one or that
of the table with the mark put in. -/
theorem Interrupted.kept (hsteady : files.Steady path)
    (hnames : (temporary path).names ≠ path.names) (hmarks : marksIn files path = .ok marks)
    (h : Interrupted path mark files next) :
    Kept path files (marks.insert mark.instanceName mark.value).text next := by
  obtain hfailed | ⟨stage, before, hstage, hleaves⟩ :=
    h.outcome (SaveStage.Progress path files _) (Kept path files _)
      (SaveStage.Progress.step hsteady hnames hmarks) rfl
  · exact hfailed
  · exact SaveStage.Progress.leaves hsteady hnames hstage hleaves

theorem Interrupted.untouched {fault : CheckpointFault}
    (hmarks : marksIn files path = .error fault) (h : Interrupted path mark files next) :
    next = files := by
  have hstep : ∀ {stage before result}, stage = .read ∧ before = files →
      SaveStage.Course path mark before stage result →
      Outcome (fun stage before => stage = .read ∧ before = files) (· = files) result := by
    rintro _ _ _ ⟨rfl, rfl⟩ hcourse
    cases hcourse with
    | unread _ => exact rfl
    | read hfound =>
        rw [hmarks] at hfound
        cases hfound
  obtain hfailed | ⟨_, _, ⟨rfl, rfl⟩, hleaves⟩ := h.outcome _ _ hstep ⟨rfl, rfl⟩
  · exact hfailed
  · cases hleaves
    rfl

theorem SaveStage.rooted_step (hrooted : files.Rooted)
    (hcourse : stage.Course path mark files result) :
    Outcome (fun _ => Files.Rooted) Files.Rooted result := by
  have hmade : (files.addParents path).2.Rooted :=
    hrooted.addFolders (Files.isFolder_top files) path.names.dropLast
  cases hcourse with
  | unread _ => exact hrooted
  | read _ => exact hrooted
  | unmade _ => exact hmade
  | made _ => exact hmade
  | unwritten _ => exact hrooted
  | written hwrite => exact hrooted.write hwrite
  | unmoved _ => exact hrooted
  | moved hrename => exact hrooted.rename hrename
  | done => exact hrooted

/-- What a save leaves is a tree of folders again, which the next save may find. -/
theorem Interrupted.rooted (hrooted : files.Rooted) (h : Interrupted path mark files next) :
    next.Rooted := by
  obtain hfailed | ⟨stage, before, hbefore, hleaves⟩ :=
    h.outcome (fun _ => Files.Rooted) Files.Rooted SaveStage.rooted_step hrooted
  · exact hfailed
  · cases hleaves with
    | untouched stage => exact hbefore
    | folders text k => exact hbefore.addFolders (Files.isFolder_top before) _
    | part hwrite => exact hbefore.write hwrite

/-- A save that fails or is cut off leaves the text of the file as it was, or the whole text of the
old table with the mark put in, and each load answers as before the save or as after it. The save of
a table that cannot be read fails and leaves the file as it was. -/
theorem interrupted_save_keeps_marks (hrooted : files.Rooted)
    (hnames : (temporary path).names ≠ path.names) (hleads : LeadsOn files path)
    (h : Interrupted path mark files next) :
    (next.read path = files.read path ∧
        (∀ name, (Store.file path).load next name = (Store.file path).load files name) ∨
      ∃ marks, marksIn files path = .ok marks ∧
        next.read path = .ok (marks.insert mark.instanceName mark.value).text ∧
        ∀ name, (Store.file path).load next name =
          .ok ((marks.insert mark.instanceName mark.value).get? name)) ∧
      ∀ fault, marksIn files path = .error fault →
        (Store.file path).save files mark = ⟨some fault, .file path, files⟩ ∧ next = files := by
  constructor
  · cases hmarks : marksIn files path with
    | error fault =>
        rw [h.untouched hmarks]
        exact .inl ⟨rfl, fun _ => rfl⟩
    | ok marks =>
        obtain hsame | hwritten :=
          h.kept (steady_of_marksIn hrooted hnames hleads hmarks) hnames hmarks
        · left
          refine ⟨hsame, fun name => ?_⟩
          simp only [Store.load, marksIn, hsame]
        · right
          refine ⟨marks, rfl, hwritten, fun name => ?_⟩
          simp only [Store.load, marksIn, hwritten, marksOf, Marks.ofText_text, Except.map]
  · intro fault hmarks
    exact ⟨save_of_unreadable hmarks, h.untouched hmarks⟩

end

/-- The marks of another instance in the file. -/
def sharedMarks : Marks :=
  Marks.empty.insert "replica" .epoch

/-- A file of marks, and what an earlier save left beside it. -/
def sharedFiles : Files where
  texts := [(["marks.json"], sharedMarks.text), (["marks.tmp"], "half a table")]

theorem sharedFiles_stand : Stands sharedFiles ⟨"marks.json"⟩ ["marks.json"] ["marks.tmp"] :=
  ⟨rfl, rfl⟩

theorem half_written_save_keeps_marks :
    (sharedFiles.Rooted ∧ (temporary ⟨"marks.json"⟩).names ≠ WrittenPath.names ⟨"marks.json"⟩ ∧
      LeadsOn sharedFiles ⟨"marks.json"⟩ ∧
      Interrupted ⟨"marks.json"⟩ ⟨"primary", .epoch⟩ sharedFiles
        (sharedFiles.put ["marks.tmp"] "half")) ∧
      ∀ name, (Store.file ⟨"marks.json"⟩).load (sharedFiles.put ["marks.tmp"] "half") name =
        .ok (sharedMarks.get? name) ∨
        (Store.file ⟨"marks.json"⟩).load (sharedFiles.put ["marks.tmp"] "half") name =
          .ok ((sharedMarks.insert "primary" .epoch).get? name) := by
  have hmarks : marksIn sharedFiles ⟨"marks.json"⟩ = .ok sharedMarks :=
    sharedFiles_stand.marksIn_of_text rfl
  have hrooted : sharedFiles.Rooted := ⟨by simp [sharedFiles, Files.isFolder], nofun⟩
  have hnames : (temporary ⟨"marks.json"⟩).names ≠ WrittenPath.names ⟨"marks.json"⟩ := by decide
  have hleads : LeadsOn sharedFiles ⟨"marks.json"⟩ := leadsOn_of_plain (by decide) sharedFiles
  have hcut : Interrupted ⟨"marks.json"⟩ ⟨"primary", .epoch⟩ sharedFiles
      (sharedFiles.put ["marks.tmp"] "half") := by
    have hwritten : sharedFiles.write (temporary ⟨"marks.json"⟩) "half" =
        .ok (sharedFiles.put ["marks.tmp"] "half") :=
      Files.write_of_newPlace sharedFiles_stand.temporary "half"
    have hrun : saveSteps ⟨"marks.json"⟩ ⟨"primary", .epoch⟩ 2 .read sharedFiles =
        (.ok (.writeTemporary (sharedMarks.insert "primary" .epoch).text), sharedFiles) := by
      simp only [saveSteps, Stands.step_read hmarks, sharedFiles_stand.step_makeFolders]
    exact .cutOff hrun (.part hwritten)
  refine ⟨⟨hrooted, hnames, hleads, hcut⟩, fun name => ?_⟩
  obtain ⟨⟨-, hsame⟩ | ⟨marks, hold, -, hnew⟩, -⟩ :=
    interrupted_save_keeps_marks hrooted hnames hleads hcut
  · left
    rw [hsame, Store.load, hmarks, Except.map]
  · right
    obtain rfl : marks = sharedMarks := by
      rw [hmarks] at hold
      exact (Except.ok.inj hold).symm
    exact hnew name

/-- A file of marks, and a folder that has the name of the file beside it. -/
def blockedFiles : Files where
  texts := [(["marks.json"], sharedMarks.text)]
  folders := [["marks.tmp"]]

/-- A save that fails makes the folder that was missing. The path did not lead to the file before,
and now it does: the save finds no marks, and a load after it finds a mark that was neither there
nor saved. -/
theorem failed_save_shows_other_marks :
    (blockedFiles.Rooted ∧
      (temporary ⟨"new/../marks.json"⟩).names ≠ WrittenPath.names ⟨"new/../marks.json"⟩) ∧
      marksIn blockedFiles ⟨"new/../marks.json"⟩ = .ok .empty ∧
      (Marks.empty.insert "primary" .epoch).get? "replica" = none ∧
      ∃ next, (Store.file ⟨"new/../marks.json"⟩).save blockedFiles ⟨"primary", .epoch⟩ =
          ⟨some (.denied .isFolder), .file ⟨"new/../marks.json"⟩, next⟩ ∧
        Interrupted ⟨"new/../marks.json"⟩ ⟨"primary", .epoch⟩ blockedFiles next ∧
        (Store.file ⟨"new/../marks.json"⟩).load next "replica" = .ok (some .epoch) := by
  have hrooted : blockedFiles.Rooted := ⟨by simp [blockedFiles, Files.isFolder], by decide⟩
  have hrun : saveSteps ⟨"new/../marks.json"⟩ ⟨"primary", .epoch⟩ 4 .read blockedFiles =
      (.error (.denied .isFolder), { blockedFiles with folders := [["new"], ["marks.tmp"]] }) := rfl
  have hplace : Files.newPlace { blockedFiles with folders := [["new"], ["marks.tmp"]] }
      ⟨"new/../marks.json"⟩ = .ok ["marks.json"] := rfl
  have hmarks : marksIn { blockedFiles with folders := [["new"], ["marks.tmp"]] }
      ⟨"new/../marks.json"⟩ = .ok sharedMarks := by
    have htext : Files.textAt? { blockedFiles with folders := [["new"], ["marks.tmp"]] }
        ["marks.json"] = some sharedMarks.text := rfl
    simp only [marksIn, Files.read_of_newPlace hplace, htext, Option.elim_some, marksOf,
      Marks.ofText_text]
  refine ⟨⟨hrooted, by decide⟩, rfl, rfl, _, ?_, .failed hrun, ?_⟩
  · rw [Store.save, hrun]
  · rw [Store.load, hmarks]
    rfl

end DeadlockCapture.Storage
