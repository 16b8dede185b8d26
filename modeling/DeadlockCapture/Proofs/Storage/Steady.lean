import DeadlockCapture.Proofs.Storage.Folders

/-!
Paths that lead to one place whatever folders are made for them. A path through folders that are
there does. So does a path through a missing folder if the names behind it are plain: nothing was at
its end, and nothing is when the folders are made.
-/

namespace DeadlockCapture.Storage

namespace Files

variable {f g : Files} {path : WrittenPath} {place beside folder : Place} {names : List String}

/-! ### Nothing at the end of a path -/

/-- Nothing stands at the end of names from a place, nor anything but folders on the way there. -/
structure Vacant (f : Files) (base : Place) (names : List String) : Prop where
  clear : ∀ k, f.isFolder (base ++ names.take k) = true ∨ f.textAt? (base ++ names.take k) = none
  folder : f.isFolder (base ++ names) = false

theorem Vacant.text {base : Place} (h : f.Vacant base names) :
    f.textAt? (base ++ names) = none := by
  have hclear := h.clear names.length
  rw [List.take_length, h.folder] at hclear
  exact hclear.resolve_left Bool.false_ne_true

theorem Rooted.vacant {base : Place} (h : f.Rooted) (hmissing : f.isFolder base = false)
    (hnone : f.textAt? base = none) (names : List String) : f.Vacant base names :=
  ⟨fun k => .inr (h.below hmissing hnone (List.prefix_append base (names.take k))).2,
    (h.below hmissing hnone (List.prefix_append base names)).1⟩

theorem Vacant.enter {base : Place} {front : List String} (h : f.Vacant base names)
    (hplain : ∀ name ∈ front, PlainName name) (hfront : front <+: names) :
    f.enter base front = .ok (base ++ front) ∨ f.enter base front = .error .missing := by
  obtain ⟨rest, rfl⟩ := hfront
  obtain ⟨hclear, -⟩ := h
  induction front generalizing base with
  | nil =>
      left
      rw [List.append_nil, Files.enter]
  | cons name front ih =>
      obtain ⟨hname, hfront⟩ := List.forall_mem_cons.1 hplain
      rw [Files.enter, lookUp_of_plain hname]
      simp only
      split
      · have hafter : f.enter (base ++ [name]) front = .ok (base ++ [name] ++ front) ∨
            f.enter (base ++ [name]) front = .error .missing :=
          ih hfront fun k => by simpa using hclear (k + 1)
        rwa [List.append_assoc, List.singleton_append] at hafter
      · rename_i hfolder
        have hnone := (hclear 1).resolve_left (by simpa using hfolder)
        rw [List.cons_append, List.take_succ_cons, List.take_zero] at hnone
        right
        rw [hnone]
        rfl

/-- Folders have been added to files, and none of them at the place. -/
structure AddedAround (f g : Files) (place : Place) : Prop where
  texts : g.texts = f.texts
  kept : ∀ folder, f.isFolder folder = true → g.isFolder folder = true
  clear : g.isFolder place = false

theorem AddedAround.cons (h : f.AddedAround g place) (hother : place ≠ folder) :
    f.AddedAround { g with folders := folder :: g.folders } place := by
  refine ⟨h.texts, fun other hfolder => isFolder_cons.2 (.inr (h.kept other hfolder)), ?_⟩
  apply Bool.eq_false_iff.2
  intro hadded
  obtain hsame | hold := isFolder_cons.1 hadded
  · exact hother hsame
  · rw [h.clear] at hold
    cases hold

theorem AddedAround.addFolders (h : f.AddedAround g place)
    (hplain : ∀ name ∈ names, PlainName name)
    (hlong : folder.length + names.length < place.length) :
    f.AddedAround (g.addFolders folder names).2 place := by
  obtain ⟨htexts, hkept, hnew⟩ := addFolders_of_plain hplain g folder
  refine ⟨htexts.trans h.texts, fun other hfolder => hkept other (h.kept other hfolder), ?_⟩
  apply Bool.eq_false_iff.2
  intro hadded
  obtain hold | hshort := hnew place hadded
  · rw [h.clear] at hold
    cases hold
  · exact absurd hlong (Nat.not_lt_of_le hshort)

/-! ### Paths that lead to one place -/

/-- The path leads through a folder that was missing, and on by plain names to where nothing is. -/
structure Unmade (f : Files) (path : WrittenPath) (front : List String) (last : String)
    (rest : List String) (folder base : Place) : Prop where
  names : path.names = front ++ last :: rest
  way : ∃ middle name? wantsFolder, way path = .ok (front ++ last :: middle, name?, wantsFolder)
  front : f.enter [] front = .ok folder
  last : lookUp folder last = .ok base
  plain : ∀ name ∈ rest, PlainName name
  vacant : f.Vacant base rest

namespace Unmade

variable {front rest : List String} {last : String} {base : Place}

theorem read (h : f.Unmade path front last rest folder base) :
    f.read path = .error .missing := by
  obtain ⟨middle, name?, wantsFolder, hway⟩ := h.way
  have hnames := h.names
  have hmiddle : rest = middle ++ name?.toList := by
    cases name? with
    | none =>
        rw [← names_eq_of_way_none hway] at hnames
        simpa using hnames.symm
    | some name =>
        rw [(names_eq_of_way hway).1] at hnames
        simpa using hnames.symm
  have hplain : ∀ name ∈ middle, PlainName name := fun name hname =>
    h.plain name (hmiddle ▸ List.mem_append_left _ hname)
  have hclear := h.vacant.clear 0
  rw [List.take_zero, List.append_nil] at hclear
  rw [Files.read, target_eq, hway]
  simp only [enter_append, h.front, enter, h.last]
  cases hbase : f.isFolder base with
  | false =>
      rw [hbase] at hclear
      rw [hclear.resolve_left Bool.false_ne_true]
      rfl
  | true =>
      rw [if_pos rfl]
      obtain henter | henter := h.vacant.enter hplain ⟨_, hmiddle.symm⟩
      · rw [henter]
        cases name? with
        | none =>
            have hfolder := isFolder_of_enter hbase henter
            rw [Option.toList_none, List.append_nil] at hmiddle
            rw [← hmiddle, h.vacant.folder] at hfolder
            cases hfolder
        | some name =>
            have hname : PlainName name := h.plain name (by simp [hmiddle])
            have hend : base ++ middle ++ [name] = base ++ rest := by
              rw [hmiddle, List.append_assoc, Option.toList_some]
            simp only [Except.map, lookUp_of_plain hname, hend, h.vacant.text, h.vacant.folder,
              Bool.false_eq_true, if_false]
      · rw [henter]
        rfl

theorem addFolders_from (h : f.Unmade path front last rest folder base) (k : Nat) :
    f.AddedAround (f.addFolders folder ((last :: rest).dropLast.take k)).2 (base ++ rest) := by
  have hsame : f.AddedAround f (base ++ rest) := ⟨rfl, fun _ h => h, h.vacant.folder⟩
  cases k with
  | zero => exact hsame
  | succ k =>
      by_cases hrest : rest = []
      · rw [hrest] at hsame ⊢
        exact hsame
      have hplain : ∀ name ∈ rest.dropLast.take k, PlainName name := fun name hname =>
        h.plain name ((List.dropLast_sublist _).mem (List.mem_of_mem_take hname))
      have hlong : base.length + (rest.dropLast.take k).length < (base ++ rest).length := by
        have hpos := List.length_pos_iff.2 hrest
        simp only [List.length_append, List.length_take, List.length_dropLast]
        omega
      rw [List.dropLast_cons_of_ne_nil hrest, List.take_succ_cons, Files.addFolders, h.last]
      simp only
      cases hbase : f.isFolder base with
      | true =>
          rw [if_pos rfl]
          exact hsame.addFolders hplain hlong
      | false =>
          have hclear := h.vacant.clear 0
          rw [List.take_zero, List.append_nil, hbase] at hclear
          rw [hclear.resolve_left Bool.false_ne_true]
          have hother : base ++ rest ≠ base := by simpa using hrest
          exact (hsame.cons hother).addFolders hplain hlong

/-- Folders that are added on the way make no folder of its end. -/
theorem addFolders (h : f.Unmade path front last rest folder base) (k : Nat) :
    (f.addFolders [] (path.names.dropLast.take k)).2.Unmade path front last rest folder base := by
  have hway : path.names.dropLast = front ++ (last :: rest).dropLast := by
    rw [h.names, List.dropLast_append_of_ne_nil (List.cons_ne_nil last rest)]
  rw [hway]
  by_cases hk : k ≤ front.length
  · obtain ⟨place, htake⟩ := enter_take h.front k
    rw [List.take_append_of_le_length hk, addFolders_of_enter htake]
    exact h
  · rw [List.take_append, List.take_of_length_le (by omega), addFolders_append h.front]
    have hadded := h.addFolders_from (k - front.length)
    refine ⟨h.names, h.way, enter_mono hadded.kept h.front, h.last, h.plain, fun j => ?_,
      hadded.clear⟩
    refine (h.vacant.clear j).imp (hadded.kept _) fun hnone => ?_
    rwa [textAt?, hadded.texts]

/-- The file beside stands neither at the end of the path nor on the way there. -/
theorem aside (h : f.Unmade path front last rest folder base)
    (hnames : (temporary path).names ≠ path.names)
    (hbeside : f.newPlace (temporary path) = .ok beside) (k : Nat) :
    base ++ rest.take k ≠ beside := by
  obtain ⟨above, name, henter, hlast, habove, rfl⟩ := newPlace_eq hbeside
  rw [dropLast_names_temporary] at henter hlast
  have hway : path.names.dropLast = front ++ (last :: rest).dropLast := by
    rw [h.names, List.dropLast_append_of_ne_nil (List.cons_ne_nil last rest)]
  rw [hway] at henter hlast
  rw [hlast, h.names] at hnames
  rw [enter_append, h.front] at henter
  by_cases hrest : rest = []
  · subst hrest
    obtain rfl : folder = above := Except.ok.inj henter
    have hother : name ≠ last := by
      rintro rfl
      simp at hnames
    rw [List.take_nil, List.append_nil]
    exact lookUp_ne h.last habove hother
  · rw [List.dropLast_cons_of_ne_nil hrest] at henter hnames
    obtain ⟨next, hstep, -, hrun⟩ := enter_cons_eq_ok_iff.1 henter
    obtain rfl : base = next := Except.ok.inj (h.last.symm.trans hstep)
    have hplain : ∀ name ∈ rest.dropLast, PlainName name := fun name hname =>
      h.plain name ((List.dropLast_sublist _).mem hname)
    rw [enter_of_plain hplain hrun, List.append_assoc, ne_eq, List.append_cancel_left_eq]
    intro hsame
    have hlength := congrArg List.length hsame
    have hpos := List.length_pos_iff.2 hrest
    simp only [List.length_take, List.length_append, List.length_dropLast, List.length_singleton]
      at hlength
    rw [List.take_of_length_le (by omega)] at hsame
    rw [List.append_assoc, List.cons_append, ← hsame] at hnames
    exact hnames rfl

theorem put (h : f.Unmade path front last rest folder base)
    (hnames : (temporary path).names ≠ path.names)
    (hbeside : f.newPlace (temporary path) = .ok beside) (text : String) :
    (f.put beside text).Unmade path front last rest folder base := by
  have hfolders : (f.put beside text).folders = f.folders := rfl
  refine ⟨h.names, h.way, enter_congr hfolders h.front, h.last, h.plain, fun k => ?_,
    h.vacant.folder⟩
  rw [textAt?_put, if_neg (h.aside hnames hbeside k)]
  exact h.vacant.clear k

end Unmade

/-- The path leads to one place whatever folders are made for it. -/
def Steady (f : Files) (path : WrittenPath) : Prop :=
  (∃ t, f.target path = .ok t) ∨
    ∃ front last rest folder base, f.Unmade path front last rest folder base

theorem Steady.addFolders (h : f.Steady path) (k : Nat) :
    (f.addFolders [] (path.names.dropLast.take k)).2.Steady path ∧
      (f.addFolders [] (path.names.dropLast.take k)).2.read path = f.read path := by
  obtain ⟨t, htarget⟩ | ⟨front, last, rest, folder, base, hunmade⟩ := h
  · obtain ⟨place, henter⟩ : ∃ place, f.enter [] path.names.dropLast = .ok place := by
      obtain ⟨names, hway, henter⟩ := target_eq_ok_iff.1 htarget
      cases hname : t.name? with
      | none =>
          rw [hname] at hway
          rw [names_eq_of_way_none hway] at henter
          rw [List.dropLast_eq_take]
          exact enter_take henter _
      | some name =>
          rw [hname] at hway
          rw [← names_of_way hway]
          exact ⟨_, henter⟩
    obtain ⟨place, htake⟩ := enter_take henter k
    rw [addFolders_of_enter htake]
    exact ⟨.inl ⟨t, htarget⟩, rfl⟩
  · have hnext := hunmade.addFolders k
    exact ⟨.inr ⟨_, _, _, _, _, hnext⟩, hnext.read.trans hunmade.read.symm⟩

theorem Steady.addParents (h : f.Steady path) :
    (f.addParents path).2.Steady path ∧ (f.addParents path).2.read path = f.read path := by
  have hmade := h.addFolders path.names.dropLast.length
  rwa [List.take_length, ← Files.addParents] at hmade

/-- What is written beside a file is not in the file. -/
theorem Steady.put (h : f.Steady path) (hnames : (temporary path).names ≠ path.names)
    (hbeside : f.newPlace (temporary path) = .ok beside) (text : String) :
    (f.put beside text).Steady path ∧ (f.put beside text).read path = f.read path := by
  obtain ⟨t, htarget⟩ | ⟨front, last, rest, folder, base, hunmade⟩ := h
  · have hfolders : (f.put beside text).folders = f.folders := rfl
    have hnext := target_congr hfolders htarget
    refine ⟨.inl ⟨t, hnext⟩, ?_⟩
    obtain ⟨folder, name, henter, hlast, habove, rfl⟩ := newPlace_eq hbeside
    rw [dropLast_names_temporary] at henter hlast
    obtain ⟨names, hway, hwalk⟩ := target_eq_ok_iff.1 htarget
    obtain ⟨target, name?, wantsFolder⟩ := t
    cases name? with
    | none => simp only [read, hnext, htarget]
    | some last =>
        obtain ⟨hsplit, -⟩ := names_eq_of_way hway
        have hfront : path.names.dropLast = names := (names_of_way hway).symm
        rw [hfront] at henter hlast
        obtain rfl : folder = target := Except.ok.inj (henter.symm.trans hwalk)
        have hother : name ≠ last := by
          rintro rfl
          exact hnames (hlast.trans hsplit.symm)
        simp only [read, hnext, htarget]
        cases hstep : lookUp folder last with
        | error d => rfl
        | ok place =>
            simp only [textAt?_put, if_neg (lookUp_ne hstep habove hother), isFolder_congr hfolders]
  · have hnext := hunmade.put hnames hbeside text
    exact ⟨.inr ⟨_, _, _, _, _, hnext⟩, hnext.read.trans hunmade.read.symm⟩

end Files

end DeadlockCapture.Storage
