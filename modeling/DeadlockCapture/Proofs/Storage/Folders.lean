import DeadlockCapture.Proofs.Storage.Names
import Mathlib.Data.List.Induction

/-!
Folders on the way along names: which of them are there, which are added, and that files stay a tree
whatever is written, moved or made.
-/

namespace DeadlockCapture.Storage

namespace Files

variable {f g : Files} {path : WrittenPath} {place beside folder : Place} {names : List String}

/-- What is in a folder has that folder around it. -/
structure Rooted (f : Files) : Prop where
  texts : ∀ t ∈ f.texts, f.isFolder t.1.dropLast = true
  folders : ∀ place ∈ f.folders, f.isFolder place.dropLast = true

theorem isFolder_top (f : Files) : f.isFolder [] = true :=
  rfl

/-! ### Along plain names -/

/-- The name leads to a place in the folder, wherever it is met. -/
def PlainName (name : String) : Prop :=
  name ≠ ".." ∧ name.utf8ByteSize ≤ nameLimit

instance : DecidablePred PlainName :=
  fun name => inferInstanceAs (Decidable (name ≠ ".." ∧ name.utf8ByteSize ≤ nameLimit))

theorem lookUp_of_plain {name : String} (h : PlainName name) (folder : Place) :
    lookUp folder name = .ok (folder ++ [name]) :=
  (lookUp_eq_ok_iff h.1).2 ⟨h.2, rfl⟩

theorem enter_of_plain (hplain : ∀ name ∈ names, PlainName name)
    (h : f.enter folder names = .ok place) : place = folder ++ names := by
  induction names generalizing folder with
  | nil =>
      cases h
      rw [List.append_nil]
  | cons name rest ih =>
      obtain ⟨hname, hrest⟩ := List.forall_mem_cons.1 hplain
      obtain ⟨next, hstep, -, henter⟩ := enter_cons_eq_ok_iff.1 h
      rw [lookUp_of_plain hname] at hstep
      cases hstep
      rw [ih hrest henter, List.append_assoc, List.singleton_append]

theorem isFolder_of_enter (hfolder : f.isFolder folder = true)
    (h : f.enter folder names = .ok place) : f.isFolder place = true := by
  induction names generalizing folder with
  | nil =>
      cases h
      exact hfolder
  | cons name rest ih =>
      obtain ⟨next, -, hnext, henter⟩ := enter_cons_eq_ok_iff.1 h
      exact ih hnext henter

theorem enter_take (h : f.enter folder names = .ok place) (k : Nat) :
    ∃ place, f.enter folder (names.take k) = .ok place := by
  induction names generalizing folder k with
  | nil => exact ⟨folder, by rw [List.take_nil, enter]⟩
  | cons name rest ih =>
      obtain ⟨next, hstep, hnext, henter⟩ := enter_cons_eq_ok_iff.1 h
      cases k with
      | zero => exact ⟨folder, rfl⟩
      | succ k =>
          obtain ⟨place, htake⟩ := ih henter k
          exact ⟨place, enter_cons_eq_ok_iff.2 ⟨next, hstep, hnext, htake⟩⟩

theorem enter_append (f : Files) (folder : Place) (front rest : List String) :
    f.enter folder (front ++ rest) = match f.enter folder front with
      | .ok place => f.enter place rest
      | .error d => .error d := by
  induction front generalizing folder with
  | nil => rfl
  | cons name front ih =>
      rw [List.cons_append, enter, enter]
      cases lookUp folder name with
      | error d => rfl
      | ok next =>
          simp only
          split
          · exact ih next
          · rfl

theorem enter_mono (hfolders : ∀ place, f.isFolder place = true → g.isFolder place = true)
    (h : f.enter folder names = .ok place) : g.enter folder names = .ok place := by
  induction names generalizing folder with
  | nil => exact h
  | cons name rest ih =>
      obtain ⟨next, hstep, hnext, hrest⟩ := enter_cons_eq_ok_iff.1 h
      exact enter_cons_eq_ok_iff.2 ⟨next, hstep, hfolders next hnext, ih hrest⟩

/-- Where names do not lead to a folder because one is missing, the first that is missing. -/
theorem missing_of_enter (h : f.enter folder names = .error .missing) :
    ∃ front last rest place base, names = front ++ last :: rest ∧
      f.enter folder front = .ok place ∧ lookUp place last = .ok base ∧
      f.isFolder base = false ∧ f.textAt? base = none := by
  induction names generalizing folder with
  | nil => cases h
  | cons name rest ih =>
      rw [enter] at h
      cases hstep : lookUp folder name with
      | error d =>
          rw [hstep] at h
          obtain rfl : d = .missing := Except.error.inj h
          rw [lookUp] at hstep
          split at hstep
          · cases hstep
          · split at hstep <;> cases hstep
      | ok base =>
          simp only [hstep] at h
          split at h
          · rename_i hfolder
            obtain ⟨front, last, after, place, found, rfl, henter, hfound⟩ := ih h
            exact ⟨name :: front, last, after, place, found, rfl,
              enter_cons_eq_ok_iff.2 ⟨base, hstep, hfolder, henter⟩, hfound⟩
          · rename_i hfolder
            refine ⟨[], name, rest, folder, base, rfl, rfl, hstep, Bool.eq_false_iff.2 hfolder, ?_⟩
            cases htext : f.textAt? base with
            | none => rfl
            | some text => simp [htext] at h

/-- Below a folder that is missing there is nothing. -/
theorem Rooted.below (h : f.Rooted) (hmissing : f.isFolder folder = false)
    (hnone : f.textAt? folder = none) (hbelow : folder <+: place) :
    f.isFolder place = false ∧ f.textAt? place = none := by
  obtain ⟨rest, rfl⟩ := hbelow
  induction rest using List.reverseRec with
  | nil =>
      rw [List.append_nil]
      exact ⟨hmissing, hnone⟩
  | append_singleton rest name ih =>
      rw [← List.append_assoc]
      constructor
      · apply Bool.eq_false_iff.2
        intro hfolder
        obtain hall | hmember := Bool.or_eq_true_iff.1 hfolder
        · rw [List.append_assoc, List.all_append] at hall
          rw [isFolder, (Bool.and_eq_true_iff.1 hall).1] at hmissing
          cases hmissing
        · have habove := h.folders _ (List.contains_iff_mem.1 hmember)
          rw [List.dropLast_concat, ih.1] at habove
          cases habove
      · rw [textAt?, Option.map_eq_none_iff, List.find?_eq_none]
        intro t ht hplace
        have habove := h.texts t ht
        rw [eq_of_beq hplace, List.dropLast_concat, ih.1] at habove
        cases habove

theorem isFolder_cons : ({ f with folders := folder :: f.folders } : Files).isFolder place = true ↔
    place = folder ∨ f.isFolder place = true := by
  simp only [isFolder, List.contains_cons, Bool.or_eq_true, beq_iff_eq]
  exact or_left_comm

/-- What folders are added along plain names, and that nothing else changes. -/
theorem addFolders_of_plain (hplain : ∀ name ∈ names, PlainName name) (f : Files)
    (folder : Place) :
    (f.addFolders folder names).2.texts = f.texts ∧
      (∀ place, f.isFolder place = true → (f.addFolders folder names).2.isFolder place = true) ∧
      ∀ place, (f.addFolders folder names).2.isFolder place = true →
        f.isFolder place = true ∨ place.length ≤ folder.length + names.length := by
  induction names generalizing f folder with
  | nil => exact ⟨rfl, fun _ h => h, fun _ h => .inl h⟩
  | cons name rest ih =>
      obtain ⟨hname, hrest⟩ := List.forall_mem_cons.1 hplain
      rw [addFolders, lookUp_of_plain hname]
      simp only
      split
      · obtain ⟨htexts, hkept, hnew⟩ := ih hrest f (folder ++ [name])
        refine ⟨htexts, hkept, fun place h => (hnew place h).imp_right fun hlength => ?_⟩
        simp only [List.length_append, List.length_cons, List.length_nil] at hlength ⊢
        omega
      · split
        · exact ⟨rfl, fun _ h => h, fun _ h => .inl h⟩
        · obtain ⟨htexts, hkept, hnew⟩ :=
            ih hrest { f with folders := (folder ++ [name]) :: f.folders } (folder ++ [name])
          refine ⟨htexts, fun place h => hkept place (isFolder_cons.2 (.inr h)), fun place h => ?_⟩
          obtain hadded | hlength := hnew place h
          · obtain rfl | hold := isFolder_cons.1 hadded
            · right
              simp only [List.length_append, List.length_cons, List.length_nil]
              omega
            · exact .inl hold
          · right
            simp only [List.length_append, List.length_cons, List.length_nil] at hlength ⊢
            omega

theorem addFolders_append {front rest : List String} (h : f.enter folder front = .ok place) :
    f.addFolders folder (front ++ rest) = f.addFolders place rest := by
  induction front generalizing folder with
  | nil =>
      cases h
      rfl
  | cons name front ih =>
      obtain ⟨next, hstep, hfolder, henter⟩ := enter_cons_eq_ok_iff.1 h
      simp only [List.cons_append, addFolders, hstep, hfolder, if_true, ih henter]

/-! ### Files that are written and moved -/

/-- A file that is written is put in a place where it could be written. -/
theorem write_eq_ok {text : String} (h : f.write path text = .ok g) :
    ∃ place, f.newPlace path = .ok place ∧ g = f.put place text := by
  cases hplace : f.newPlace path with
  | error d =>
      rw [write, hplace] at h
      cases h
  | ok place =>
      rw [write_of_newPlace hplace] at h
      cases h
      exact ⟨place, rfl, rfl⟩

/-- A file that is moved had a text, and the place where it goes could have been written. -/
theorem rename_eq_ok {source : WrittenPath} (hsource : f.newPlace source = .ok beside)
    (h : f.rename source path = .ok g) :
    ∃ place text, f.newPlace path = .ok place ∧ f.textAt? beside = some text ∧
      g = (f.remove beside).put place text := by
  rw [rename, hsource] at h
  cases htarget : f.target path with
  | error d =>
      rw [htarget] at h
      cases h
  | ok t =>
      obtain ⟨folder, name?, wantsFolder⟩ := t
      simp only [htarget, moveTo] at h
      cases htext : f.textAt? beside with
      | none =>
          rw [htext] at h
          cases name? <;> cases h
      | some text =>
          cases name? with
          | none =>
              rw [htext] at h
              cases h
          | some name =>
              cases hstep : lookUp folder name with
              | error d =>
                  simp only [htext, hstep] at h
                  cases h
              | ok place =>
                  simp only [htext, hstep] at h
                  split at h
                  · cases h
                  · rename_i hfile
                    obtain rfl : wantsFolder = false := Bool.eq_false_iff.2 hfile
                    split at h
                    · cases h
                    · rename_i hfolder
                      cases h
                      exact ⟨place, text, newPlace_eq_ok_iff.2
                        ⟨folder, name, htarget, hstep, Bool.eq_false_iff.2 hfolder⟩, rfl, rfl⟩

theorem read_of_rename {source : WrittenPath} {content : String}
    (hsource : f.newPlace source = .ok beside) (htext : f.textAt? beside = some content)
    (h : f.rename source path = .ok g) : g.read path = .ok content := by
  obtain ⟨place, text, hplace, hmoved, rfl⟩ := rename_eq_ok hsource h
  obtain rfl : text = content := Option.some.inj (hmoved.symm.trans htext)
  have hfolders : ((f.remove beside).put place text).folders = f.folders := rfl
  rw [read_of_newPlace (newPlace_congr hfolders hplace), textAt?_put, if_pos rfl]
  rfl

/-! ### Folders around what changes -/

namespace Rooted

theorem above (h : f.Rooted) (hfolder : f.isFolder place = true) :
    f.isFolder place.dropLast = true := by
  obtain hall | hmember := Bool.or_eq_true_iff.1 hfolder
  · apply Bool.or_eq_true_iff.2
    left
    rw [List.all_eq_true] at hall ⊢
    exact fun name hname => hall name ((List.dropLast_sublist _).mem hname)
  · exact h.folders place (List.contains_iff_mem.1 hmember)

theorem around_lookUp (h : f.Rooted) (hfolder : f.isFolder folder = true) {name : String}
    (hplace : lookUp folder name = .ok place) (hmissing : f.isFolder place = false) :
    f.isFolder place.dropLast = true := by
  by_cases hup : name = ".."
  · rw [lookUp, if_pos hup] at hplace
    cases hplace
    rw [Place.above] at hmissing ⊢
    split
    · rwa [List.dropLast_concat]
    · rwa [List.dropLast_concat]
    · exact h.above hfolder
    · exact h.above (h.above hfolder)
  · rw [((lookUp_eq_ok_iff hup).1 hplace).2, List.dropLast_concat]
    exact hfolder

theorem addFolders (h : f.Rooted) (hfolder : f.isFolder folder = true) (names : List String) :
    (f.addFolders folder names).2.Rooted := by
  induction names generalizing f folder with
  | nil => exact h
  | cons name rest ih =>
      rw [Files.addFolders]
      cases hplace : lookUp folder name with
      | error d => exact h
      | ok place =>
          simp only
          split
          · rename_i hthere
            exact ih h hthere
          · rename_i hmissing
            split
            · exact h
            · have haround := h.around_lookUp hfolder hplace (Bool.eq_false_iff.2 hmissing)
              refine ih ⟨fun t ht => isFolder_cons.2 (.inr (h.texts t ht)), fun other hother => ?_⟩
                (isFolder_cons.2 (.inl rfl))
              apply isFolder_cons.2
              right
              obtain rfl | hold := List.mem_cons.1 hother
              · exact haround
              · exact h.folders other hold

theorem remove (h : f.Rooted) (place : Place) : (f.remove place).Rooted :=
  ⟨fun t ht => h.texts t (List.mem_filter.1 ht).1, h.folders⟩

theorem put (h : f.Rooted) (hplace : f.newPlace path = .ok place) (text : String) :
    (f.put place text).Rooted := by
  obtain ⟨folder, name, henter, -, -, rfl⟩ := newPlace_eq hplace
  refine ⟨fun t ht => ?_, h.folders⟩
  obtain rfl | hold := List.mem_cons.1 ht
  · rw [List.dropLast_concat]
    have hfolder : f.isFolder folder = true := isFolder_of_enter f.isFolder_top henter
    exact hfolder
  · exact h.texts t (List.mem_filter.1 hold).1

theorem write (h : f.Rooted) {text : String} (hwrite : f.write path text = .ok g) : g.Rooted := by
  obtain ⟨place, hplace, rfl⟩ := write_eq_ok hwrite
  exact h.put hplace text

theorem rename (h : f.Rooted) {source : WrittenPath} (hrename : f.rename source path = .ok g) :
    g.Rooted := by
  cases hsource : f.newPlace source with
  | error d =>
      rw [Files.rename, hsource] at hrename
      cases hrename
  | ok beside =>
      obtain ⟨place, text, hplace, -, rfl⟩ := rename_eq_ok hsource hrename
      have hfolders : (f.remove beside).folders = f.folders := rfl
      exact (h.remove beside).put (newPlace_congr hfolders hplace) text

end Rooted

end Files

end DeadlockCapture.Storage
