import DeadlockCapture.Proofs.Storage.Places
import Mathlib.Data.List.TakeWhile

/-!
The names along a path. A path with another extension leads through the same folders as the path
itself, whatever the two end in.
-/

namespace DeadlockCapture.Storage

/-! ### Names in a text -/

theorem segments_ne_nil (s : List Char) : segments s ≠ [] := by
  cases s with
  | nil => exact List.cons_ne_nil _ _
  | cons c s =>
      rw [segments]
      split
      · exact List.cons_ne_nil _ _
      · split <;> exact List.cons_ne_nil _ _

theorem segments_cons {c : Char} (h : c ≠ '/') {s first : List Char} {rest : List (List Char)}
    (hs : segments s = first :: rest) : segments (c :: s) = (c :: first) :: rest := by
  rw [segments, if_neg h, hs]

theorem segments_append (s t : List Char) :
    segments (s ++ '/' :: t) = segments s ++ segments t := by
  induction s with
  | nil => simp [segments]
  | cons c s ih =>
      by_cases h : c = '/'
      · simp only [List.cons_append, segments, if_pos h, ih]
      · obtain ⟨first, rest, hs⟩ := List.exists_cons_of_ne_nil (segments_ne_nil s)
        have happend : segments (s ++ '/' :: t) = first :: (rest ++ segments t) := by
          rw [ih, hs, List.cons_append]
        rw [List.cons_append, segments_cons h happend, segments_cons h hs, List.cons_append]

theorem segments_of_plain {s : List Char} (h : '/' ∉ s) : segments s = [s] := by
  induction s with
  | nil => rfl
  | cons c s ih =>
      obtain ⟨hc, hs⟩ := not_or.1 (mt List.mem_cons.2 h)
      exact segments_cons (Ne.symm hc) (ih hs)

/-- The names in a text, without the top in front of them. -/
def namesIn (s : List Char) : List String :=
  (((segments s).filter (!·.isEmpty)).map String.ofList).filter (· ≠ ".")

theorem namesIn_append (s t : List Char) :
    namesIn (s ++ '/' :: t) = namesIn s ++ namesIn t := by
  simp only [namesIn, segments_append, List.filter_append, List.map_append]

theorem namesIn_single {s : List Char} (hplain : '/' ∉ s) (hfilled : s ≠ []) (hdot : s ≠ ['.']) :
    namesIn s = [String.ofList s] := by
  have hname : String.ofList s ≠ "." := by
    intro hsame
    have hlist := congrArg String.toList hsame
    rw [String.toList_ofList] at hlist
    exact hdot hlist
  simp [namesIn, segments_of_plain hplain, hfilled, hname]

namespace WrittenPath

variable {p : WrittenPath}

theorem names_eq (p : WrittenPath) :
    p.names = if p.text.toList.head? = some '/' then "/" :: namesIn p.text.toList
      else namesIn p.text.toList := by
  rw [names, steps]
  split <;> simp [namesIn]

/-! ### The last name -/

/-- A text that is empty or ends in a slash: what may stand in front of a name. -/
def IsFront (s : List Char) : Prop :=
  s = [] ∨ ∃ t, s = t ++ ['/']

theorem names_of_front {front s rest : List Char} (hfront : IsFront front) (hplain : '/' ∉ s)
    (hfilled : s ≠ []) (hdot : s ≠ ['.'])
    (htext : p.text.toList = front ++ s ++ rest)
    (hrest : namesIn (front ++ s ++ rest) = namesIn (front ++ s)) :
    p.names.dropLast = if front.head? = some '/' then "/" :: namesIn front else namesIn front := by
  obtain ⟨c, w, rfl⟩ := List.exists_cons_of_ne_nil hfilled
  have hc : c ≠ '/' := fun h => hplain (h ▸ List.mem_cons_self)
  rw [names_eq, htext, hrest]
  obtain rfl | ⟨t, rfl⟩ := hfront
  · have hhead : (c :: w ++ rest).head? ≠ some '/' := by simpa using hc
    rw [List.nil_append, if_neg hhead, namesIn_single hplain hfilled hdot]
    rfl
  · have hnames : namesIn (t ++ ['/'] ++ c :: w) = namesIn (t ++ ['/']) ++ [String.ofList (c :: w)]
        := by
      rw [List.append_assoc, List.singleton_append, namesIn_append, namesIn_append,
        namesIn_single hplain hfilled hdot]
      simp [namesIn, segments]
    have hhead : (t ++ ['/'] ++ c :: w ++ rest).head? = (t ++ ['/']).head? := by
      cases t <;> rfl
    rw [hnames, hhead]
    split
    · rw [← List.cons_append, List.dropLast_concat]
    · rw [List.dropLast_concat]

theorem dropRest_suffix (s : List Char) : dropRest s <:+ s := by
  fun_induction dropRest s with
  | case1 s ih => exact ih.trans (List.suffix_cons '/' s)
  | case2 s ih => exact ih.trans ((List.suffix_cons '/' s).trans (List.suffix_cons '.' _))
  | case3 s => exact List.suffix_rfl

/-- What is dropped at the end of a path holds no names. -/
theorem namesIn_dropRest (s : List Char) : namesIn (dropRest s).reverse = namesIn s.reverse := by
  have hnone : namesIn [] = [] := rfl
  have hdot : namesIn ['.'] = [] := rfl
  fun_induction dropRest s with
  | case1 s ih => rw [ih, List.reverse_cons, namesIn_append, hnone, List.append_nil]
  | case2 s ih =>
      rw [ih, List.reverse_cons, List.reverse_cons, List.append_assoc, List.singleton_append,
        namesIn_append, hdot, List.append_nil]
  | case3 s => rfl

theorem isFront_front (p : WrittenPath) : IsFront p.front := by
  rw [IsFront, front]
  cases hback : (dropRest p.text.toList.reverse).dropWhile (· ≠ '/') with
  | nil => exact .inl rfl
  | cons c t =>
      have hc := List.head?_dropWhile_not (· ≠ '/') (dropRest p.text.toList.reverse)
      rw [hback] at hc
      have hslash : c = '/' := by simpa using hc
      exact .inr ⟨t.reverse, by rw [hslash, List.reverse_cons]⟩

theorem text_of_fileName {name : List Char} (h : p.fileName? = some name) :
    (∃ rest, p.text.toList = p.front ++ name ++ rest ∧
      namesIn (p.front ++ name ++ rest) = namesIn (p.front ++ name)) ∧
      '/' ∉ name ∧ name ≠ [] ∧ name ≠ ['.'] := by
  rw [fileName?] at h
  split at h
  · cases h
  · rename_i hname
    obtain rfl := Option.some.inj h
    obtain ⟨hfilled, hdot, -⟩ := by simpa only [not_or] using hname
    have hwhole : p.front ++ ((dropRest p.text.toList.reverse).takeWhile (· ≠ '/')).reverse =
        (dropRest p.text.toList.reverse).reverse := by
      rw [front, ← List.reverse_append, List.takeWhile_append_dropWhile]
    refine ⟨?_, ?_, hfilled, hdot⟩
    · obtain ⟨dropped, hdropped⟩ := dropRest_suffix p.text.toList.reverse
      have htext : p.text.toList =
          (dropRest p.text.toList.reverse).reverse ++ dropped.reverse := by
        rw [← List.reverse_append, hdropped, List.reverse_reverse]
      rw [hwhole]
      exact ⟨dropped.reverse, htext, by
        rw [← htext, namesIn_dropRest, List.reverse_reverse]⟩
    · intro hslash
      have hinside := List.mem_takeWhile_imp (List.mem_reverse.1 hslash)
      simp at hinside

theorem stemLength_pos {name : List Char} (h : name ≠ []) : 0 < stemLength name := by
  have hlength := List.length_pos_iff.2 h
  rw [stemLength]
  split <;> omega

/-- A path with another extension leads through the folders that the path leads through. -/
theorem dropLast_names_withExtension (p : WrittenPath) {extension : String}
    (h : '/' ∉ extension.toList) :
    (p.withExtension extension).names.dropLast = p.names.dropLast := by
  rw [withExtension]
  cases hfile : p.fileName? with
  | none => rfl
  | some name =>
      obtain ⟨⟨rest, htext, hrest⟩, hplain, hfilled, hdot⟩ := text_of_fileName hfile
      have hfront := isFront_front p
      rw [names_of_front hfront hplain hfilled hdot htext hrest]
      simp only
      split
      · have htext : (String.ofList (p.front ++ ['.', '.'])).toList =
            p.front ++ ['.', '.'] ++ [] := by
          rw [String.toList_ofList, List.append_nil]
        exact names_of_front hfront (by decide) (by decide) (by decide) htext
          (by rw [List.append_nil])
      · have hstem : name.take (stemLength name) ≠ [] := by
          have hpos := stemLength_pos hfilled
          have hlength := List.length_pos_iff.2 hfilled
          rw [← List.length_pos_iff, List.length_take]
          omega
        generalize hs : name.take (stemLength name) = stem at hstem
        have hinside : '/' ∉ stem := fun hslash => hplain (List.mem_of_mem_take (hs ▸ hslash))
        have htext : (String.ofList (p.front ++ stem ++ ['.']) ++ extension).toList =
            p.front ++ (stem ++ ['.'] ++ extension.toList) ++ [] := by
          simp [List.append_assoc]
        refine names_of_front hfront ?_ ?_ ?_ htext (by rw [List.append_nil])
        · simp [hinside, h]
        · simp
        · intro hsame
          have hlength := congrArg List.length hsame
          have hpos := List.length_pos_iff.2 hstem
          simp only [List.length_append, List.length_singleton] at hlength
          omega

end WrittenPath

/-- The file beside a file is reached through the same folders. -/
theorem dropLast_names_temporary (path : WrittenPath) :
    (temporary path).names.dropLast = path.names.dropLast :=
  path.dropLast_names_withExtension (by decide)

/-! ### The names that are followed -/

namespace Files

variable {f : Files} {p : WrittenPath} {place : Place}

theorem names_eq_of_way {names : List String} {name : String} {wantsFolder : Bool}
    (h : way p = .ok (names, some name, wantsFolder)) :
    p.names = names ++ [name] ∧ name ≠ ".." := by
  rw [way] at h
  split at h
  · cases h
  · split at h
    · cases h
    · split at h
      · cases h
      · split at h
        · cases h
        · cases h
        · cases h
        · cases h
        · rename_i last _ hstay habove hlast
          cases h
          obtain ⟨front, hsteps⟩ := List.getLast?_eq_some_iff.1 hlast
          have hnames : p.names = front.filter (· ≠ ".") ++ [name] := by
            have hkept : name ≠ "." := hstay
            rw [WrittenPath.names, hsteps, List.filter_append]
            simp [hkept]
          exact ⟨by rw [hnames, List.dropLast_concat], habove⟩

theorem names_eq_of_way_none {names : List String} {wantsFolder : Bool}
    (h : way p = .ok (names, none, wantsFolder)) : names = p.names := by
  rw [way] at h
  split at h
  · cases h
  · split at h
    · cases h
    · split at h
      · cases h
      · split at h <;> cases h <;> rfl

/-- A way follows the names of the path, all of them or all but the last. -/
theorem names_prefix_of_way {names : List String} {name? : Option String} {wantsFolder : Bool}
    (h : way p = .ok (names, name?, wantsFolder)) : ∃ rest, p.names = names ++ rest := by
  cases name? with
  | none => exact ⟨[], by rw [names_eq_of_way_none h, List.append_nil]⟩
  | some name => exact ⟨[name], (names_eq_of_way h).1⟩

theorem lookUp_eq_ok_iff {folder : Place} {name : String} (h : name ≠ "..") :
    lookUp folder name = .ok place ↔
      name.utf8ByteSize ≤ nameLimit ∧ place = folder ++ [name] := by
  rw [lookUp, if_neg h]
  by_cases hlong : nameLimit < name.utf8ByteSize
  · rw [if_pos hlong]
    exact ⟨nofun, fun h => absurd h.1 (Nat.not_le_of_lt hlong)⟩
  · rw [if_neg hlong]
    constructor
    · intro hplace
      exact ⟨Nat.le_of_not_lt hlong, (Except.ok.inj hplace).symm⟩
    · rintro ⟨-, rfl⟩
      rfl

/-- A name leads to no place that another name leads to. -/
theorem lookUp_ne {folder : Place} {name other : String} (h : lookUp folder other = .ok place)
    (habove : name ≠ "..") (hother : name ≠ other) : place ≠ folder ++ [name] := by
  by_cases hup : other = ".."
  · rw [lookUp, if_pos hup] at h
    cases h
    rw [Place.above]
    split
    · simpa using Ne.symm habove
    · simpa using Ne.symm habove
    · simp
    · intro hsame
      have hlength := congrArg List.length hsame
      simp only [List.length_dropLast, List.length_append, List.length_singleton] at hlength
      omega
  · rw [((lookUp_eq_ok_iff hup).1 h).2]
    simpa using Ne.symm hother

/-- A place to write lies in the folder at the end of the names before the last one. -/
theorem newPlace_eq (h : f.newPlace p = .ok place) :
    ∃ folder name, f.enter [] p.names.dropLast = .ok folder ∧ p.names = p.names.dropLast ++ [name] ∧
      name ≠ ".." ∧ place = folder ++ [name] := by
  obtain ⟨folder, name, htarget, hstep, -⟩ := newPlace_eq_ok_iff.1 h
  obtain ⟨names, hway, henter⟩ := target_eq_ok_iff.1 htarget
  obtain ⟨hnames, habove⟩ := names_eq_of_way hway
  have hfront : p.names.dropLast = names := (names_of_way hway).symm
  rw [hfront]
  exact ⟨folder, name, henter, hnames, habove, ((lookUp_eq_ok_iff habove).1 hstep).2⟩

end Files

end DeadlockCapture.Storage
