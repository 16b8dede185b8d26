import DeadlockCapture.Proofs.Text.Runs
import DeadlockCapture.Proofs.Xml.Grammar
import Mathlib.Data.List.TakeWhile

/-!
The parts of markup in any surroundings. A part that the reader takes in front of one text it takes
in front of every other, at whatever offset.
-/

namespace DeadlockCapture.Xml

open DeadlockCapture.Text

/-! ### Allowed runs -/

/-- Every character of `w` is allowed, and nothing stops before any of them. -/
def Runs (stops : List Char → Bool) : List Char → List Char → Prop
  | [], _ => True
  | c :: w, r => isAllowed c = true ∧ stops (c :: (w ++ r)) = false ∧ Runs stops w r

/-- The text is at its end, or something stops before it. -/
def Stops (stops : List Char → Bool) (r : List Char) : Prop :=
  r = [] ∨ (r.head?.any isAllowed = true ∧ stops r = true)

theorem allowedRun_le {stops : List Char → Bool} {offset n : Nat} {s : List Char}
    (h : allowedRun stops offset s = .ok n) : n ≤ s.length := by
  induction s generalizing offset n with
  | nil =>
      cases h
      exact Nat.zero_le _
  | cons c r ih =>
      unfold allowedRun at h
      split at h
      · cases h
      · split at h
        · cases h
          exact Nat.zero_le _
        · obtain ⟨m, hfound, rfl⟩ := map_eq_ok_iff.mp h
          exact Nat.succ_le_succ (ih hfound)

theorem allowedRun_append_iff {stops : List Char → Bool} (offset : Nat) {w r : List Char} :
    allowedRun stops offset (w ++ r) = .ok w.length ↔ Runs stops w r ∧ Stops stops r := by
  induction w generalizing offset with
  | nil =>
      cases r with
      | nil => simp [allowedRun, Runs, Stops]
      | cons c r =>
          simp only [List.nil_append, List.length_nil, allowedRun, Runs, Stops, true_and,
            List.head?_cons, Option.any_some, reduceCtorEq, false_or]
          split
          · simp_all
          · split
            · simp_all
            · simp_all [map_eq_ok_iff]
  | cons c w ih =>
      simp only [List.cons_append, List.length_cons, allowedRun, Runs]
      split
      · simp_all
      · split
        · simp_all
        · simp_all [map_eq_ok_iff]

theorem allowedRun_split {stops : List Char → Bool} {offset n : Nat} {s : List Char}
    (h : allowedRun stops offset s = .ok n) :
    ∃ w r, s = w ++ r ∧ w.length = n ∧ Runs stops w r ∧ Stops stops r := by
  have hshort := allowedRun_le h
  refine ⟨s.take n, s.drop n, (List.take_append_drop n s).symm, ?_, ?_⟩
  · rw [List.length_take, Nat.min_eq_left hshort]
  · rw [← allowedRun_append_iff offset, List.take_append_drop, List.length_take,
      Nat.min_eq_left hshort]
    exact h

theorem Runs.congr {stops stops' : List Char → Bool} {w r r' : List Char} (h : Runs stops w r)
    (hsame : ∀ v u, v ++ u = w → u ≠ [] → stops (u ++ r) = stops' (u ++ r')) :
    Runs stops' w r' := by
  induction w with
  | nil => trivial
  | cons c w ih =>
      obtain ⟨hallowed, hgoes, hrest⟩ := h
      refine ⟨hallowed, ?_, ih hrest ?_⟩
      · rw [← List.cons_append, ← hsame [] (c :: w) rfl (List.cons_ne_nil c w)]
        exact hgoes
      · intro v u hsplit hsome
        exact hsame (c :: v) u (by rw [List.cons_append, hsplit]) hsome

/-! ### Closed runs -/

/-- A text of allowed characters that holds no `close` and meets none at its end. -/
def Unclosed (close body : List Char) : Prop :=
  Runs (close.isPrefixOf ·) body close

theorem runs_close {close body : List Char} (r : List Char) :
    Runs (close.isPrefixOf ·) body (close ++ r) ↔ Unclosed close body := by
  have hsame : ∀ u : List Char, u ≠ [] →
      close.isPrefixOf (u ++ (close ++ r)) = close.isPrefixOf (u ++ close) := by
    intro u _
    rw [← List.append_assoc]
    exact isPrefixOf_append (by simp) r
  constructor
  · exact fun h => h.congr fun v u _ hsome => hsame u hsome
  · exact fun h => Runs.congr h fun v u _ hsome => (hsame u hsome).symm

/-- A mark whose last character is no other of its characters does not reach into what stands in
front of it. -/
theorem isPrefixOf_append_mark {front u : List Char} {c : Char} (hlast : c ∉ front) (hu : u ≠ []) :
    (front ++ [c]).isPrefixOf (u ++ (front ++ [c])) = (front ++ [c]).isPrefixOf u := by
  by_cases hlength : (front ++ [c]).length ≤ u.length
  · exact isPrefixOf_append hlength _
  · have hpos := List.length_pos_iff.mpr hu
    rw [List.length_append, List.length_singleton] at hlength
    rw [Bool.eq_iff_iff, List.isPrefixOf_iff_prefix, List.isPrefixOf_iff_prefix]
    refine iff_of_false (fun hstart => hlast ?_) fun hstart => ?_
    · -- The last character of the mark would stand among the first ones of the mark behind `u`.
      have hc : (u ++ (front ++ [c]))[front.length]? = some c := by
        obtain ⟨rest, hsplit⟩ := hstart
        rw [← hsplit]
        simp
      have hplace : (u ++ (front ++ [c]))[front.length]? = front[front.length - u.length]? := by
        rw [List.getElem?_append_right (by omega), List.getElem?_append_left (by omega)]
      exact List.mem_of_getElem? (hplace ▸ hc)
    · have hshort := hstart.length_le
      rw [List.length_append, List.length_singleton] at hshort
      omega

/-- The characters up to a closing mark are those that hold none. -/
theorem unclosed_iff {front body : List Char} {c : Char} (hlast : c ∉ front) :
    Unclosed (front ++ [c]) body ↔ IsUpTo (front ++ [c]) body := by
  unfold Unclosed
  induction body with
  | nil =>
      refine iff_of_true trivial ⟨by simp, ?_⟩
      cases front <;> rfl
  | cons d body ih =>
      rw [Runs, ih, ← List.cons_append, isPrefixOf_append_mark hlast (List.cons_ne_nil d body)]
      constructor
      · rintro ⟨hd, hfront, hbody⟩
        refine ⟨List.forall_mem_cons.mpr ⟨hd, hbody.allowed⟩, ?_⟩
        rw [holdsRun, hfront, hbody.free, Bool.or_false]
      · rintro ⟨hallowed, hfree⟩
        rw [holdsRun, Bool.or_eq_false_iff] at hfree
        obtain ⟨hd, hallowed⟩ := List.forall_mem_cons.mp hallowed
        exact ⟨hd, hfree.1, hallowed, hfree.2⟩

theorem closedRun_eq_ok_iff_unclosed {close : String} {offset n : Nat} {s : List Char}
    (hmark : close.toList.head?.any isAllowed = true) :
    closedRun close offset s = .ok n ↔
      ∃ body r, s = body ++ (close.toList ++ r) ∧ n = body.length + close.length ∧
        Unclosed close.toList body := by
  unfold closedRun
  constructor
  · intro h
    cases hfound : allowedRun (close.toList.isPrefixOf ·) offset s with
    | error f => simp [hfound] at h
    | ok m =>
        obtain ⟨body, r, rfl, rfl, hruns, hstops⟩ := allowedRun_split hfound
        simp only [hfound, List.drop_left] at h
        split at h
        · rename_i hclosed
          obtain ⟨r, rfl⟩ := List.isPrefixOf_iff_prefix.mp hclosed
          cases h
          exact ⟨body, r, rfl, rfl, (runs_close r).mp hruns⟩
        · cases h
  · rintro ⟨body, r, rfl, rfl, hunclosed⟩
    have hstart : close.toList.isPrefixOf (close.toList ++ r) = true :=
      List.isPrefixOf_iff_prefix.mpr (List.prefix_append _ _)
    have hstops : Stops (close.toList.isPrefixOf ·) (close.toList ++ r) := by
      refine .inr ⟨?_, hstart⟩
      cases htext : close.toList with
      | nil => simp [htext] at hmark
      | cons c t => simpa [htext] using hmark
    have hfound := (allowedRun_append_iff offset).mpr ⟨(runs_close r).mpr hunclosed, hstops⟩
    simp only [hfound, List.drop_left, hstart, if_true]

/-- What is read up to a closing mark and with it. -/
theorem closedRun_eq_ok_iff {close : String} {front : List Char} {c : Char}
    (hclose : close.toList = front ++ [c]) (hlast : c ∉ front)
    (hmark : close.toList.head?.any isAllowed = true) {offset n : Nat} {s : List Char} :
    closedRun close offset s = .ok n ↔
      ∃ body r, s = body ++ (close.toList ++ r) ∧ n = body.length + close.length ∧
        IsUpTo close.toList body := by
  rw [closedRun_eq_ok_iff_unclosed hmark]
  simp only [hclose, unclosed_iff hlast]

/-! ### Blanks and names -/

theorem Blanks.nil : Blanks [] :=
  fun _ h => absurd h List.not_mem_nil

theorem spaceRun_append {b r : List Char} (hblank : Blanks b)
    (hstop : ∀ c ∈ r.head?, isSpace c = false) : spaceRun (b ++ r) = b.length :=
  run_eq_length_iff.mpr ⟨hblank, hstop⟩

theorem spaceRun_split (s : List Char) :
    ∃ b r, s = b ++ r ∧ spaceRun s = b.length ∧ Blanks b ∧ ∀ c ∈ r.head?, isSpace c = false := by
  refine ⟨s.takeWhile isSpace, s.drop (s.takeWhile isSpace).length, (run_split isSpace s).symm,
    rfl, ?_, run_stops isSpace s⟩
  exact List.all_eq_true.mp List.all_takeWhile

theorem inLocalName_iff {c : Char} : inLocalName c = true ↔ inName c = true ∧ c ≠ ':' := by
  have hcolon : inLocalName ':' = false := by decide
  rw [inName, Bool.or_eq_true, beq_iff_eq]
  constructor
  · intro h
    refine ⟨.inr h, ?_⟩
    rintro rfl
    rw [hcolon] at h
    cases h
  · rintro ⟨hc | hc, hne⟩
    · exact absurd hc hne
    · exact hc

theorem startsName_of_local {c : Char} (h : startsLocalName c = true) : startsName c = true := by
  rw [startsName, h, Bool.or_true]

theorem IsLocalName.inName {w : List Char} (h : IsLocalName w) : ∀ c ∈ w, inName c = true :=
  fun c hc => (inLocalName_iff.mp (h.inside c hc)).1

theorem IsLocalName.noColon {w : List Char} (h : IsLocalName w) : ∀ c ∈ w, c ≠ ':' :=
  fun c hc => (inLocalName_iff.mp (h.inside c hc)).2

theorem isLocalName_of_run {w : List Char} (hstart : w.head?.any startsLocalName = true)
    (hname : ∀ c ∈ w, inName c = true) (hcolon : ∀ c ∈ w, c ≠ ':') : IsLocalName w :=
  ⟨hstart, fun c hc => inLocalName_iff.mpr ⟨hname c hc, hcolon c hc⟩⟩

/-- What stands before a colon for the reader. -/
theorem namesSpace_reader_iff {w : List Char} :
    Dialect.reader.NamesSpace w ↔ w.head?.all startsLocalName = true ∧
      ∀ c ∈ w, inLocalName c = true := by
  cases w with
  | nil => exact iff_of_true (.inl rfl) ⟨rfl, by simp⟩
  | cons c w =>
      constructor
      · rintro (h | ⟨hstart, hinside⟩)
        · cases h
        · exact ⟨hstart, hinside⟩
      · rintro ⟨hstart, hinside⟩
        exact .inr ⟨hstart, hinside⟩

theorem Dialect.IsName.inName {name : Name} {w : List Char} (h : Dialect.reader.IsName name w) :
    ∀ c ∈ w, inName c = true := by
  cases h with
  | plain hbase => exact hbase.inName
  | qualified hspace hbase =>
      have hinside := (namesSpace_reader_iff.mp hspace).2
      refine List.forall_mem_append.mpr ⟨fun c hc => (inLocalName_iff.mp (hinside c hc)).1, ?_⟩
      exact List.forall_mem_cons.mpr ⟨by decide, hbase.inName⟩

theorem Dialect.IsName.start {name : Name} {w : List Char} (h : Dialect.reader.IsName name w) :
    ∃ c t, w = c :: t ∧ startsName c = true := by
  have hlocal : ∀ {w : List Char}, w.head?.any startsLocalName = true →
      ∃ c t, w = c :: t ∧ startsName c = true := by
    intro w hstart
    cases w with
    | nil => cases hstart
    | cons c t => exact ⟨c, t, rfl, startsName_of_local hstart⟩
  cases h with
  | plain hbase => exact hlocal hbase.starts
  | @qualified space base hspace hbase =>
      obtain rfl | hspace := hspace
      · exact ⟨':', base, rfl, by decide⟩
      · obtain ⟨c, t, rfl, hc⟩ := hlocal hspace.starts
        exact ⟨c, _, rfl, hc⟩

/-- A name without a colon has nothing before one. -/
theorem isName_of_noColon_iff {w : List Char} {name : Name} (hcolon : ∀ c ∈ w, c ≠ ':') :
    Dialect.reader.IsName name w ↔ IsLocalName w ∧ name = ⟨[], w⟩ := by
  constructor
  · intro h
    cases h with
    | plain hbase => exact ⟨hbase, rfl⟩
    | qualified => exact absurd rfl (hcolon ':' (by simp))
  · rintro ⟨hbase, rfl⟩
    exact .plain hbase

/-- A name is divided at its first colon. -/
theorem isName_of_colon_iff {space base : List Char} {name : Name}
    (hcolon : ∀ c ∈ space, c ≠ ':') :
    Dialect.reader.IsName name (space ++ ':' :: base) ↔
      Dialect.reader.NamesSpace space ∧ IsLocalName base ∧ name = ⟨space, base⟩ := by
  constructor
  · intro h
    generalize hw : space ++ ':' :: base = w at h
    cases h with
    | plain hbase => exact absurd rfl (hbase.noColon ':' (by simp [← hw]))
    | @qualified space' base' hspace' hbase =>
        have hcolon' : ∀ c ∈ space', c ≠ ':' := fun c hc =>
          (inLocalName_iff.mp ((namesSpace_reader_iff.mp hspace').2 c hc)).2
        have hfront {u v : List Char} (hu : ∀ c ∈ u, c ≠ ':') :
            (u ++ ':' :: v).takeWhile (fun c => decide (c ≠ ':')) = u :=
          takeWhile_eq_iff.mpr ⟨by simpa using hu, by simp⟩
        obtain rfl : space = space' := by rw [← hfront hcolon, hw, hfront hcolon']
        obtain rfl : base = base' := by simpa using hw
        exact ⟨hspace', hbase, rfl⟩
  · rintro ⟨hspace, hbase, rfl⟩
    exact .qualified hspace hbase

/-- The name in front of a text is read from a run of characters of names. -/
theorem name?_run_eq_some_iff {w : List Char} {name : Name} {n : Nat}
    (hrun : ∀ c ∈ w, inName c = true) :
    name? w = some (name, n) ↔ Dialect.reader.IsName name w ∧ n = w.length := by
  obtain ⟨space, rest, rfl, hspace, hrest⟩ : ∃ space rest, w = space ++ rest ∧
      (∀ c ∈ space, c ≠ ':') ∧ ∀ c ∈ rest.head?, c = ':' := by
    refine ⟨_, _, (run_split (fun c => decide (c ≠ ':')) w).symm, ?_, ?_⟩
    · intro c hc
      simpa using List.all_eq_true.mp List.all_takeWhile c hc
    · intro c hc
      simpa using run_stops (fun c => decide (c ≠ ':')) w c hc
  have hhead : (space ++ rest).takeWhile (fun c => decide (c ≠ ':')) = space :=
    takeWhile_eq_iff.mpr ⟨by simpa using hspace, by simpa using hrest⟩
  obtain ⟨hspaceName, hrestName⟩ := List.forall_mem_append.mp hrun
  unfold name?
  simp only [List.takeWhile_eq_self_iff.mpr hrun, hhead, List.drop_left]
  cases rest with
  | nil =>
      have hlocal : IsLocalName space ↔ space.head?.any startsLocalName = true :=
        ⟨IsLocalName.starts, fun hstart => isLocalName_of_run hstart hspaceName hspace⟩
      rw [List.append_nil, isName_of_noColon_iff hspace, hlocal, Option.ite_none_right_eq_some,
        Option.some.injEq, Prod.mk.injEq, and_assoc, eq_comm (a := name), eq_comm (a := n)]
  | cons c base =>
      obtain rfl : c = ':' := hrest c rfl
      obtain ⟨-, hbaseName⟩ := List.forall_mem_cons.mp hrestName
      have hlocal : IsLocalName base ↔
          base.all (fun c => decide (c ≠ ':')) = true ∧ base.head?.any startsLocalName = true :=
        ⟨fun h => ⟨by simpa using h.noColon, h.starts⟩,
          fun h => isLocalName_of_run h.2 hbaseName (by simpa using h.1)⟩
      have hnames : Dialect.reader.NamesSpace space ↔ space.head?.all startsLocalName = true :=
        namesSpace_reader_iff.trans (and_iff_left fun c hc =>
          inLocalName_iff.mpr ⟨hspaceName c hc, hspace c hc⟩)
      rw [isName_of_colon_iff hspace, hlocal, hnames, Option.ite_none_right_eq_some,
        Bool.and_eq_true, Bool.and_eq_true, Option.some.injEq, Prod.mk.injEq]
      constructor
      · rintro ⟨⟨hbase, hstart⟩, rfl, rfl⟩
        exact ⟨⟨hstart, hbase, rfl⟩, rfl⟩
      · rintro ⟨⟨hstart, hbase, rfl⟩, rfl⟩
        exact ⟨⟨hbase, hstart⟩, rfl, rfl⟩

theorem name?_eq_some_iff {s : List Char} {name : Name} {n : Nat} :
    name? s = some (name, n) ↔
      ∃ w r, s = w ++ r ∧ n = w.length ∧ Dialect.reader.IsName name w ∧
        ∀ c ∈ r.head?, inName c = false := by
  have hsame {w r : List Char} (hstop : ∀ c ∈ r.head?, inName c = false) :
      name? (w ++ r) = name? w := by
    unfold name?
    rw [takeWhile_append_of_stops hstop]
  constructor
  · intro h
    have hrun : ∀ c ∈ s.takeWhile inName, inName c = true :=
      List.all_eq_true.mp List.all_takeWhile
    have hfront := hsame (w := s.takeWhile inName) (run_stops inName s)
    rw [run_split, h] at hfront
    obtain ⟨hname, hlength⟩ := (name?_run_eq_some_iff hrun).mp hfront.symm
    exact ⟨_, _, (run_split inName s).symm, hlength, hname, run_stops inName s⟩
  · rintro ⟨w, r, rfl, rfl, hname, hstop⟩
    rw [hsame hstop]
    exact (name?_run_eq_some_iff hname.inName).mpr ⟨hname, rfl⟩

end DeadlockCapture.Xml
