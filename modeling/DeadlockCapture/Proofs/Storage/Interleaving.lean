import DeadlockCapture.Proofs.Storage.Places

/-!
Saves to several files, whose steps may come in any order. Saves do not interfere when none of them
writes a place that another one reads or writes: each ends well and its file holds the marks that it
held before, with the one mark put in. The file beside a file is named after it without its
extension, so saves to different files of one folder can share it, or one may be the file beside
another; then a save takes the text of another one, or the file itself, away.
-/

namespace DeadlockCapture.Storage

/-- One save: where, and of which mark. -/
structure Job where
  path : WrittenPath
  mark : Mark

namespace Job

/-- The marks of a file after a save that nothing disturbed. -/
def result (job : Job) (before : Marks) : Marks :=
  before.insert job.mark.instanceName job.mark.value

/-- The stage of a save after some of its steps. -/
def stageAfter (job : Job) (before : Marks) : Nat → SaveStage
  | 0 => .read
  | 1 => .makeFolders (job.result before).text
  | 2 => .writeTemporary (job.result before).text
  | 3 => .rename
  | _ + 4 => .done

/-- What the files hold after some steps of a save: the marks from before it, then its text beside
them, then its text in their place. -/
structure Reached (job : Job) (place beside : Place) (before : Marks) (files : Files) (n : Nat) :
    Prop where
  stands : Stands files job.path place beside
  kept : n < 3 → marksIn files job.path = .ok before
  written : n = 3 → files.textAt? beside = some (job.result before).text
  replaced : 3 < n → marksIn files job.path = .ok (job.result before)

namespace Reached

variable {job : Job} {place beside : Place} {before : Marks} {files next : Files} {n : Nat}

/-- A save is not disturbed by what happens to the texts at other places. -/
theorem frame (h : job.Reached place beside before files n)
    (hfolders : next.folders = files.folders) (hplace : next.textAt? place = files.textAt? place)
    (hbeside : next.textAt? beside = files.textAt? beside) :
    job.Reached place beside before next n := by
  have hstands := h.stands.congr hfolders
  have hmarks : marksIn next job.path = marksIn files job.path := by
    rw [hstands.marksIn_eq, h.stands.marksIn_eq, hplace]
  exact ⟨hstands, fun hn => hmarks.trans (h.kept hn), fun hn => hbeside.trans (h.written hn),
    fun hn => hmarks.trans (h.replaced hn)⟩

/-- A step of a save goes well, brings it one stage further and changes texts at its own two places
only. -/
theorem step (h : job.Reached place beside before files n) :
    ∃ next, SaveStage.step job.path job.mark files (job.stageAfter before n) =
        (.ok (job.stageAfter before (n + 1)), next) ∧
      job.Reached place beside before next (n + 1) ∧ next.folders = files.folders ∧
      ∀ other, other ≠ place → other ≠ beside → next.textAt? other = files.textAt? other := by
  match n, h with
  | 0, h =>
      refine ⟨files, Stands.step_read (h.kept (by decide)), ?_, rfl, fun _ _ _ => rfl⟩
      exact ⟨h.stands, fun _ => h.kept (by decide), nofun, nofun⟩
  | 1, h =>
      refine ⟨files, h.stands.step_makeFolders _, ?_, rfl, fun _ _ _ => rfl⟩
      exact ⟨h.stands, fun _ => h.kept (by decide), nofun, nofun⟩
  | 2, h =>
      refine ⟨_, h.stands.step_writeTemporary _, ?_, rfl, fun other _ hbeside => ?_⟩
      · refine ⟨Stands.congr (f := files) rfl h.stands, nofun, fun _ => ?_, nofun⟩
        rw [Files.textAt?_put, if_pos rfl]
      · rw [Files.textAt?_put, if_neg hbeside]
  | 3, h =>
      refine ⟨_, h.stands.step_rename (h.written rfl), ?_, rfl, fun other hplace hbeside => ?_⟩
      · have hstands : Stands ((files.remove beside).put place (job.result before).text) job.path
            place beside := Stands.congr (f := files) rfl h.stands
        refine ⟨hstands, nofun, nofun, fun _ => hstands.marksIn_of_text ?_⟩
        rw [Files.textAt?_put, if_pos rfl]
      · rw [Files.textAt?_put, if_neg hplace, Files.textAt?_remove, if_neg hbeside]
  | n + 4, h =>
      refine ⟨files, rfl, ?_, rfl, fun _ _ _ => rfl⟩
      exact ⟨h.stands, fun hn => by omega, fun hn => by omega, fun _ => h.replaced (by omega)⟩

end Reached

end Job

/-- Several saves under way, each at a stage or stopped by a fault, and the files they share. -/
structure Underway (ι : Type) where
  stage : ι → Except CheckpointFault SaveStage
  files : Files

namespace Underway

variable {ι : Type} [DecidableEq ι]

def start (files : Files) : Underway ι :=
  ⟨fun _ => .ok .read, files⟩

/-- One of the saves takes its next step. A save that a fault has stopped takes none. -/
def step (jobs : ι → Job) (u : Underway ι) (i : ι) : Underway ι :=
  match u.stage i with
  | .error _ => u
  | .ok stage =>
    match stage.step (jobs i).path (jobs i).mark u.files with
    | (reached, files) => ⟨fun j => if j = i then reached else u.stage j, files⟩

def run (jobs : ι → Job) (u : Underway ι) (schedule : List ι) : Underway ι :=
  schedule.foldl (step jobs) u

/-- No save writes a place that another one reads or writes. -/
def Separate (place beside : ι → Place) : Prop :=
  ∀ i j, i ≠ j → place i ≠ place j ∧ place i ≠ beside j ∧ beside i ≠ beside j

/-- After the turns taken so far each save is at the stage that it would have reached alone. -/
def Undisturbed (jobs : ι → Job) (place beside : ι → Place) (before : ι → Marks) (u : Underway ι)
    (past : List ι) : Prop :=
  ∀ i, u.stage i = .ok ((jobs i).stageAfter (before i) (past.count i)) ∧
    (jobs i).Reached (place i) (beside i) (before i) u.files (past.count i)

variable {jobs : ι → Job} {place beside : ι → Place} {before : ι → Marks} {u : Underway ι}
  {past : List ι}

theorem Undisturbed.step (hseparate : Separate place beside)
    (h : u.Undisturbed jobs place beside before past) (i : ι) :
    (u.step jobs i).Undisturbed jobs place beside before (past ++ [i]) := by
  obtain ⟨hstage, hreached⟩ := h i
  obtain ⟨next, hstep, hnext, hfolders, hother⟩ := hreached.step
  simp only [Underway.step, hstage, hstep]
  intro j
  by_cases hj : j = i
  · have hcount : (past ++ [i]).count j = past.count i + 1 := by
      rw [hj, List.count_append, List.count_singleton_self]
    rw [hcount, hj]
    exact ⟨if_pos rfl, hnext⟩
  · have hcount : (past ++ [i]).count j = past.count j := by
      rw [List.count_append, List.count_cons_of_ne (Ne.symm hj), List.count_nil, Nat.add_zero]
    obtain ⟨hplace, hcross, hbeside⟩ := hseparate j i hj
    obtain ⟨-, hcross', -⟩ := hseparate i j (Ne.symm hj)
    rw [hcount]
    exact ⟨(if_neg hj).trans (h j).1, (h j).2.frame hfolders (hother _ hplace hcross)
      (hother _ (Ne.symm hcross') hbeside)⟩

theorem Undisturbed.run (hseparate : Separate place beside)
    (h : u.Undisturbed jobs place beside before past) (schedule : List ι) :
    (u.run jobs schedule).Undisturbed jobs place beside before (past ++ schedule) := by
  induction schedule generalizing u past with
  | nil => rwa [List.append_nil]
  | cons i rest ih =>
      have hrest := ih (h.step hseparate i)
      rwa [List.append_assoc, List.singleton_append] at hrest

end Underway

/-- Saves to files that share no place end well in whatever order their steps come, and each file
holds its own marks from before with its own mark put in. -/
theorem separate_saves_do_not_interfere {ι : Type} [DecidableEq ι] {jobs : ι → Job} {files : Files}
    {place beside : ι → Place} {before : ι → Marks}
    (hstands : ∀ i, Stands files (jobs i).path (place i) (beside i))
    (hbefore : ∀ i, marksIn files (jobs i).path = .ok (before i))
    (hseparate : Underway.Separate place beside) {schedule : List ι}
    (hall : ∀ i, 4 ≤ schedule.count i) (i : ι) :
    ((Underway.start files).run jobs schedule).stage i = .ok .done ∧
      marksIn ((Underway.start files).run jobs schedule).files (jobs i).path =
        .ok ((before i).insert (jobs i).mark.instanceName (jobs i).mark.value) := by
  have hstart : (Underway.start files).Undisturbed jobs place beside before [] :=
    fun i => ⟨rfl, hstands i, fun _ => hbefore i, nofun, nofun⟩
  obtain ⟨hstage, hreached⟩ := hstart.run hseparate schedule i
  rw [List.nil_append] at hstage hreached
  obtain ⟨n, hn⟩ : ∃ n, schedule.count i = n + 4 := Nat.exists_eq_add_of_le' (hall i)
  rw [hn] at hstage
  exact ⟨hstage, hreached.replaced (hall i)⟩

/-- Files of one name in two folders. -/
def sampleJobs : Bool → Job
  | false => ⟨⟨"marks.json"⟩, ⟨"primary", .epoch⟩⟩
  | true => ⟨⟨"state/marks.json"⟩, ⟨"replica", .epoch⟩⟩

def samplePlace : Bool → Place
  | false => ["marks.json"]
  | true => ["state", "marks.json"]

def sampleBeside : Bool → Place
  | false => ["marks.tmp"]
  | true => ["state", "marks.tmp"]

def sampleBefore : Bool → Marks
  | false => .empty
  | true => Marks.empty.insert "other" .epoch

def sampleFiles : Files where
  texts := [(["state", "marks.json"], (sampleBefore true).text)]
  folders := [["state"]]

def sampleSchedule : List Bool :=
  [false, true, true, false, true, false, false, true]

theorem sampleJobs_stand (i : Bool) :
    Stands sampleFiles (sampleJobs i).path (samplePlace i) (sampleBeside i) := by
  cases i with
  | false => exact ⟨rfl, rfl⟩
  | true => exact ⟨rfl, rfl⟩

theorem sampleJobs_before (i : Bool) :
    marksIn sampleFiles (sampleJobs i).path = .ok (sampleBefore i) := by
  cases i with
  | false => rfl
  | true => exact (sampleJobs_stand true).marksIn_of_text rfl

theorem sample_saves_do_not_interfere :
    ((∀ i, Stands sampleFiles (sampleJobs i).path (samplePlace i) (sampleBeside i)) ∧
      (∀ i, marksIn sampleFiles (sampleJobs i).path = .ok (sampleBefore i)) ∧
      Underway.Separate samplePlace sampleBeside ∧ ∀ i, 4 ≤ sampleSchedule.count i) ∧
      ∀ i, (((Underway.start sampleFiles).run sampleJobs sampleSchedule).stage i = .ok .done ∧
        marksIn ((Underway.start sampleFiles).run sampleJobs sampleSchedule).files
            (sampleJobs i).path =
          .ok ((sampleBefore i).insert (sampleJobs i).mark.instanceName
            (sampleJobs i).mark.value)) := by
  have hseparate : Underway.Separate samplePlace sampleBeside := by
    unfold Underway.Separate
    decide
  have hall : ∀ i, 4 ≤ sampleSchedule.count i := by decide
  exact ⟨⟨sampleJobs_stand, sampleJobs_before, hseparate, hall⟩,
    separate_saves_do_not_interfere sampleJobs_stand sampleJobs_before hseparate hall⟩

/-- Two files of one folder, of which the second is the file beside the first. -/
def nestedJobs : Bool → Job
  | false => ⟨⟨"marks.json"⟩, ⟨"primary", .epoch⟩⟩
  | true => ⟨⟨"marks.tmp"⟩, ⟨"replica", .epoch⟩⟩

def nestedEnd : Underway Bool :=
  (Underway.start {}).run nestedJobs [true, true, true, true, false, false, false, false]

/-- A save takes another file away if that is the file beside its own: both saves end well, one
after the other, and the marks of the first to be saved are gone. -/
theorem save_takes_away_file_beside :
    (Stands {} ⟨"marks.json"⟩ ["marks.json"] ["marks.tmp"] ∧
      Stands {} ⟨"marks.tmp"⟩ ["marks.tmp"] ["marks.tmp"] ∧
      ∀ i, marksIn {} (nestedJobs i).path = .ok .empty) ∧
      (∀ i, nestedEnd.stage i = .ok .done) ∧
      marksIn nestedEnd.files ⟨"marks.tmp"⟩ = .ok .empty ∧
      marksIn nestedEnd.files ⟨"marks.tmp"⟩ ≠ .ok (Marks.empty.insert "replica" .epoch) := by
  have hgone : marksIn nestedEnd.files ⟨"marks.tmp"⟩ = .ok .empty := rfl
  refine ⟨⟨⟨rfl, rfl⟩, ⟨rfl, rfl⟩, ?_⟩, ?_, hgone, ?_⟩
  · intro i
    cases i <;> rfl
  · intro i
    cases i <;> rfl
  · rw [hgone]
    intro hsame
    have hentries : Marks.empty.entries = (Marks.empty.insert "replica" .epoch).entries :=
      congrArg Marks.entries (Except.ok.inj hsame)
    cases hentries

end DeadlockCapture.Storage
