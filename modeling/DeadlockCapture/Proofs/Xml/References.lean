import DeadlockCapture.Proofs.Text.LineEnds
import DeadlockCapture.Proofs.Xml.Scanning
import DeadlockCapture.Xml.Reference

/-!
Texts with references. What a text stands for does not depend on its offset, and a text that has
been escaped stands for what it was before.
-/

namespace DeadlockCapture.Xml

open DeadlockCapture.Text

/-! ### References -/

theorem numberedChar?_eq_some_iff {n : Nat} {c : Char} :
    numberedChar? n = some c ↔ Dialect.reader.Numbers n c := by
  simp only [numberedChar?, Option.ite_none_left_eq_some, Option.ite_none_right_eq_some,
    Nat.not_lt, Option.some.injEq, Dialect.Numbers]
  constructor
  · rintro ⟨hn, hallowed, rfl⟩
    exact ⟨hn, rfl, hallowed⟩
  · rintro ⟨hn, rfl, hallowed⟩
    exact ⟨hn, hallowed, rfl⟩

theorem numbered?_eq_some_iff {base skip n : Nat} {digits : List Char} {c : Char} :
    numbered? base skip digits = some (.char c, n) ↔
      digits ≠ [] ∧ Dialect.reader.Numbers (valueOf base digits) c ∧ n = skip + digits.length := by
  simp only [numbered?, Option.ite_none_left_eq_some, List.isEmpty_iff, Option.map_eq_some_iff,
    Prod.mk.injEq, Reference.char.injEq, ← numberedChar?_eq_some_iff]
  constructor
  · rintro ⟨hdigits, d, hd, rfl, rfl⟩
    exact ⟨hdigits, hd, rfl⟩
  · rintro ⟨hdigits, hc, rfl⟩
    exact ⟨hdigits, c, hc, rfl, rfl⟩

/-- A name that stands for a character is a name. -/
theorem isName_of_namedChar? {name : List Char} {c : Char} (h : namedChar? name = some c) :
    ∃ d t, name = d :: t ∧ d ≠ '#' ∧ startsName d = true ∧ ∀ e ∈ t, inName e = true := by
  unfold namedChar? at h
  repeat' split at h
  all_goals
    first
      | (rename_i hname
         exact ⟨_, _, hname, by decide, by decide, forall_mem_of_all (by decide)⟩)
      | cases h

theorem refers_of_referenceBody? {s : List Char} {c : Char} {n : Nat}
    (h : referenceBody? s = some (.char c, n)) :
    ∃ name r, s = name ++ r ∧ n = name.length ∧ Dialect.reader.Refers name c := by
  unfold referenceBody? at h
  split at h
  · rename_i r
    obtain ⟨hdigits, hnumber, rfl⟩ := numbered?_eq_some_iff.mp h
    refine ⟨'#' :: 'x' :: r.takeWhile isHexDigit, r.drop (r.takeWhile isHexDigit).length, ?_, ?_,
      .hexadecimal hdigits (List.all_eq_true.mp List.all_takeWhile) hnumber⟩
    · rw [List.cons_append, List.cons_append, run_split]
    · rw [List.length_cons, List.length_cons, Nat.add_comm]
  · rename_i r _
    obtain ⟨hdigits, hnumber, rfl⟩ := numbered?_eq_some_iff.mp h
    refine ⟨'#' :: r.takeWhile Char.isDigit, r.drop (r.takeWhile Char.isDigit).length, ?_, ?_,
      .decimal hdigits (List.all_eq_true.mp List.all_takeWhile) hnumber⟩
    · rw [List.cons_append, run_split]
    · rw [List.length_cons, Nat.add_comm]
  · rename_i d r _ _
    split at h
    · simp only at h
      split at h
      · rename_i hnamed
        cases h
        exact ⟨d :: r.takeWhile inName, r.drop (r.takeWhile inName).length,
          by rw [List.cons_append, run_split], rfl, .named hnamed⟩
      · cases h
    · cases h
  · cases h

theorem referenceBody?_of_refers {name : List Char} {c : Char}
    (h : Dialect.reader.Refers name c) (r : List Char) :
    referenceBody? (name ++ ';' :: r) = some (.char c, name.length) := by
  cases h with
  | named hnamed =>
      obtain ⟨d, t, rfl, hnumber, hstart, ht⟩ := isName_of_namedChar? hnamed
      have hrun : (t ++ ';' :: r).takeWhile inName = t :=
        takeWhile_eq_iff.mpr ⟨ht, by rintro e ⟨⟩; decide⟩
      rw [List.cons_append, referenceBody?]
      · simp only [hstart, if_true, hrun, hnamed]
      · rintro _ rfl
        exact absurd rfl hnumber
      · rintro rfl
        exact absurd rfl hnumber
  | @decimal digits _ hdigits hall hnumber =>
      have hrun : (digits ++ ';' :: r).takeWhile Char.isDigit = digits :=
        takeWhile_eq_iff.mpr ⟨hall, by rintro e ⟨⟩; decide⟩
      rw [List.cons_append, referenceBody?]
      · rw [hrun]
        exact numbered?_eq_some_iff.mpr ⟨hdigits, hnumber, by rw [List.length_cons, Nat.add_comm]⟩
      · intro t ht
        obtain ⟨d, digits, rfl⟩ := List.exists_cons_of_ne_nil hdigits
        obtain ⟨rfl, -⟩ := List.cons.inj ht
        exact absurd (hall 'x' List.mem_cons_self) (by decide)
  | @hexadecimal digits _ hdigits hall hnumber =>
      have hrun : (digits ++ ';' :: r).takeWhile isHexDigit = digits :=
        takeWhile_eq_iff.mpr ⟨hall, by rintro e ⟨⟩; decide⟩
      rw [List.cons_append, List.cons_append, referenceBody?, hrun]
      refine numbered?_eq_some_iff.mpr ⟨hdigits, hnumber, ?_⟩
      simp only [List.length_cons]
      omega

/-- A reference is read up to the semicolon that ends it. -/
theorem reference?_eq_some_iff {s : List Char} {c : Char} {n : Nat} :
    reference? s = some (.char c, n) ↔
      ∃ name r, s = name ++ ';' :: r ∧ n = name.length + 1 ∧ Dialect.reader.Refers name c := by
  unfold reference?
  constructor
  · intro h
    split at h
    · rename_i ref m hbody
      simp only [Option.ite_none_right_eq_some, Option.some.injEq, Prod.mk.injEq] at h
      obtain ⟨hmark, rfl, rfl⟩ := h
      obtain ⟨name, r, rfl, rfl, hrefers⟩ := refers_of_referenceBody? hbody
      rw [List.drop_left] at hmark
      obtain ⟨r, rfl⟩ := List.head?_eq_some_iff.mp hmark
      exact ⟨name, r, rfl, rfl, hrefers⟩
    · cases h
  · rintro ⟨name, r, rfl, rfl, hrefers⟩
    simp only [referenceBody?_of_refers hrefers, List.drop_left, List.head?_cons, if_true]

/-! ### Texts with references -/

/-- A text is read if every ampersand in it starts a reference, at whatever offset. -/
theorem glyphsFrom_eq_ok_iff {offset : Nat} {s : List Char} {g : List Glyph} :
    glyphsFrom offset s = .ok g ↔ Dialect.reader.Spells s g := by
  constructor
  · intro h
    fun_induction glyphsFrom offset s generalizing g with
    | case1 offset =>
        cases h
        exact .nil
    | case2 offset r d n hfound ih =>
        obtain ⟨rest, hrest, rfl⟩ := map_eq_ok_iff.mp h
        obtain ⟨name, r, rfl, rfl, hrefers⟩ := reference?_eq_some_iff.mp hfound
        have hdrop : (name ++ ';' :: r).drop (name.length + 1) = r := by
          rw [← List.drop_drop, List.drop_left]
          rfl
        rw [hdrop] at ih hrest
        exact .referred hrefers (ih hrest)
    | case3 => cases h
    | case4 => cases h
    | case5 offset c r hother ih =>
        obtain ⟨rest, hrest, rfl⟩ := map_eq_ok_iff.mp h
        exact .written hother (ih hrest)
  · intro h
    induction h generalizing offset with
    | nil => rw [glyphsFrom]
    | @referred name r c g hrefers _ ih =>
        have hfound := reference?_eq_some_iff.mpr ⟨name, r, rfl, rfl, hrefers⟩
        have hrest : (name ++ ';' :: r).drop (name.length + 1) = r := by
          rw [← List.drop_drop, List.drop_left]
          rfl
        rw [glyphsFrom]
        simp only [if_true, hfound, hrest, ih]
        rfl
    | written hother _ ih =>
        rw [glyphsFrom, if_neg hother, ih]
        rfl

theorem contentText_eq_ok_iff {offset : Nat} {raw content : List Char} :
    contentText offset raw = .ok content ↔ Dialect.reader.ReadsText raw content := by
  simp only [contentText, map_eq_ok_iff, glyphsFrom_eq_ok_iff]
  rfl

theorem attributeText_eq_ok_iff {offset : Nat} {raw value : List Char} :
    attributeText offset raw = .ok value ↔
      ∃ g, Dialect.reader.Spells raw g ∧ valueChars g = value := by
  simp only [attributeText, map_eq_ok_iff, glyphsFrom_eq_ok_iff]

/-! ### What a text stands for -/

def Glyph.char : Glyph → Char
  | .referred c => c
  | .written c => c

theorem allowed_of_namedChar? {name : List Char} {c : Char} (h : namedChar? name = some c) :
    isAllowed c = true := by
  unfold namedChar? at h
  repeat' split at h
  all_goals
    first
      | (cases h; rfl)
      | cases h

section Allowed

variable {d : Dialect}

theorem Dialect.Numbers.allowed {n : Nat} {c : Char} (h : d.Numbers n c) : isAllowed c = true := by
  cases d with
  | standard => exact h.2
  | reader => exact h.2.2

theorem Dialect.Refers.allowed {name : List Char} {c : Char} (h : d.Refers name c) :
    isAllowed c = true := by
  cases h with
  | named hnamed => exact allowed_of_namedChar? hnamed
  | decimal _ _ hnumber => exact hnumber.allowed
  | hexadecimal _ _ hnumber => exact hnumber.allowed

/-- References stand for allowed characters only. -/
theorem Dialect.Spells.allowed {s : List Char} {g : List Glyph} (h : d.Spells s g)
    (hs : ∀ c ∈ s, isAllowed c = true) : ∀ x ∈ g, isAllowed x.char = true := by
  induction h with
  | nil => simp
  | referred hrefers _ ih =>
      refine List.forall_mem_cons.mpr ⟨hrefers.allowed, ih fun c hc => hs c ?_⟩
      exact List.mem_cons_of_mem _ (List.mem_append_right _ (List.mem_cons_of_mem _ hc))
  | written _ _ ih =>
      obtain ⟨hc, hr⟩ := List.forall_mem_cons.mp hs
      exact List.forall_mem_cons.mpr ⟨hc, ih hr⟩

end Allowed

/-- The ends of lines bring no characters into a text but the two that end lines. -/
theorem forall_lineEnds {P : Char → Prop} (hcarriage : P '\r') (hfeed : P '\n') {kept ended : Bool}
    {g : List Glyph} (h : ∀ x ∈ g, P x.char) : ∀ c ∈ lineEnds kept ended g, P c := by
  have hwaiting : ∀ ended : Bool, ∀ c ∈ (if ended = true then ['\r'] else []), P c := by
    rintro (_ | _) c <;> simp_all
  have hfront : ∀ ended : Bool, ∀ c ∈ (if ended = true then ['\n'] else []), P c := by
    rintro (_ | _) c <;> simp_all
  fun_induction lineEnds kept ended g with
  | case1 => simpa using hcarriage
  | case2 =>
      intro c hmember
      cases hmember
  | case3 kept ended c r ih =>
      obtain ⟨hfirst, hrest⟩ := List.forall_mem_cons.mp h
      exact List.forall_mem_append.mpr ⟨hwaiting ended, List.forall_mem_cons.mpr ⟨hfirst, ih hrest⟩⟩
  | case4 ended r ih => exact ih (List.forall_mem_cons.mp h).2
  | case5 ended c r hother ih =>
      obtain ⟨hfirst, hrest⟩ := List.forall_mem_cons.mp h
      exact List.forall_mem_cons.mpr ⟨hfirst, ih hrest⟩
  | case6 kept ended r => exact List.forall_mem_append.mpr ⟨hfront ended, by simpa using hfeed⟩
  | case7 kept ended r hkept newlines hsome ih =>
      exact List.forall_mem_append.mpr ⟨hfront ended, ih (List.forall_mem_cons.mp h).2⟩
  | case8 kept c r hkept hother ih =>
      obtain ⟨hfirst, hrest⟩ := List.forall_mem_cons.mp h
      refine List.forall_mem_append.mpr ⟨?_, ih hrest⟩
      have hread : P c := hfirst
      split <;> simp_all
  | case9 kept ended c r hkept hother hended ih =>
      obtain ⟨hfirst, hrest⟩ := List.forall_mem_cons.mp h
      exact List.forall_mem_cons.mpr ⟨hfirst, ih hrest⟩

theorem lineEnds_ne_nil {kept ended : Bool} {g : List Glyph} (h : ended = true ∨ g ≠ []) :
    lineEnds kept ended g ≠ [] := by
  fun_induction lineEnds kept ended g with
  | case1 => simp
  | case2 kept ended hnone => simp_all
  | case3 => simp
  | case4 ended r ih => exact ih (.inl rfl)
  | case5 => simp
  | case6 => simp
  | case7 kept ended r hkept newlines hsome ih =>
      exact List.append_ne_nil_of_right_ne_nil _ (ih (.inl rfl))
  | case8 => split <;> simp
  | case9 => simp

theorem Dialect.ReadsText.allowed {raw content : List Char}
    (h : Dialect.reader.ReadsText raw content) (hraw : ∀ c ∈ raw, isAllowed c = true) :
    ∀ c ∈ content, isAllowed c = true := by
  obtain ⟨g, hg, rfl⟩ := h
  exact forall_lineEnds (by decide) (by decide) (hg.allowed hraw)

theorem allowed_of_sectionText {raw : List Char} (hallowed : ∀ c ∈ raw, isAllowed c = true) :
    ∀ c ∈ sectionText raw, isAllowed c = true := by
  refine forall_lineEnds (by decide) (by decide) ?_
  exact List.forall_mem_map.mpr hallowed

theorem Dialect.ReadsText.ne_nil {raw content : List Char}
    (h : Dialect.reader.ReadsText raw content) (hraw : raw ≠ []) : content ≠ [] := by
  obtain ⟨g, hg, rfl⟩ := h
  refine lineEnds_ne_nil (.inr ?_)
  rintro rfl
  cases hg
  exact hraw rfl

/-! ### Escaping -/

theorem escapeText_cons (c : Char) (u : List Char) :
    escapeText (c :: u) = escapeChar c ++ escapeText u := rfl

theorem holdsRun_of_not_mem {run s : List Char} {c : Char} (h : c ∈ run) (hnone : c ∉ s) :
    holdsRun run s = false := by
  induction s with
  | nil => cases run with
    | nil => cases h
    | cons d run => rfl
  | cons d s ih =>
      rw [holdsRun, ih fun hmember => hnone (List.mem_cons_of_mem _ hmember), Bool.or_false]
      cases hstart : run.isPrefixOf (d :: s) with
      | false => rfl
      | true => exact absurd ((List.isPrefixOf_iff_prefix.mp hstart).subset h) hnone

/-- An escaped character holds no bracket. -/
theorem escapeChar_plain {c : Char} (hallowed : isAllowed c = true) :
    ∀ d ∈ escapeChar c, isAllowed d = true ∧ d ≠ '<' ∧ d ≠ '>' := by
  by_cases hampersand : c = '&'
  · subst hampersand
    exact forall_mem_of_all (by decide)
  · by_cases hless : c = '<'
    · subst hless
      exact forall_mem_of_all (by decide)
    · by_cases hgreater : c = '>'
      · subst hgreater
        exact forall_mem_of_all (by decide)
      · simpa [escapeChar, hampersand, hless, hgreater] using hallowed

theorem escapeText_plain {u : List Char} (hallowed : ∀ c ∈ u, isAllowed c = true) :
    ∀ d ∈ escapeText u, isAllowed d = true ∧ d ≠ '<' ∧ d ≠ '>' := by
  intro d hmember
  obtain ⟨c, hinside, hmember⟩ := List.mem_flatMap.mp hmember
  exact escapeChar_plain (hallowed c hinside) d hmember

/-- How a character is read after it has been escaped. -/
def glyphOf (c : Char) : Glyph :=
  if c = '&' ∨ c = '<' ∨ c = '>' then .referred c else .written c

/-- An escaped character is a reference to it, or the character itself. -/
theorem spells_escapeChar (d : Dialect) (c : Char) {r : List Char} {g : List Glyph}
    (h : d.Spells r g) : d.Spells (escapeChar c ++ r) (glyphOf c :: g) := by
  by_cases hampersand : c = '&'
  · subst hampersand
    have hnamed : d.Refers ['a', 'm', 'p'] '&' := .named rfl
    exact .referred hnamed h
  · by_cases hless : c = '<'
    · subst hless
      have hnamed : d.Refers ['l', 't'] '<' := .named rfl
      exact .referred hnamed h
    · by_cases hgreater : c = '>'
      · subst hgreater
        have hnamed : d.Refers ['g', 't'] '>' := .named rfl
        exact .referred hnamed h
      · simp only [escapeChar, glyphOf, hampersand, hless, hgreater, if_false, or_self,
          List.cons_append, List.nil_append]
        exact .written hampersand h

theorem spells_escapeText (d : Dialect) (u : List Char) :
    d.Spells (escapeText u) (u.map glyphOf) := by
  induction u with
  | nil => exact .nil
  | cons c u ih =>
      rw [escapeText_cons]
      exact spells_escapeChar d c ih

/-- How a text is read after it has been escaped: the ends of its lines may change. -/
def readBack (u : List Char) : List Char :=
  lineEnds false false (u.map glyphOf)

theorem readsText_escapeText (u : List Char) :
    Dialect.reader.ReadsText (escapeText u) (readBack u) :=
  ⟨_, spells_escapeText .reader u, rfl⟩

theorem reended_lineEnds (kept : Bool) (u : List Char) :
    Reended u (lineEnds kept false (u.map glyphOf)) ∧
      Reended ('\r' :: u) (lineEnds kept true (u.map glyphOf)) := by
  induction u generalizing kept with
  | nil =>
      rw [List.map_nil, lineEnds, lineEnds]
      exact ⟨.nil, .keep _ .nil⟩
  | cons c u ih =>
      rw [List.map_cons, glyphOf]
      split
      · exact ⟨.keep c (ih true).1, .keep _ (.keep c (ih true).1)⟩
      · by_cases hending : c = '\r'
        · subst hending
          obtain ⟨-, hwaiting⟩ := ih false
          cases kept with
          | true => exact ⟨hwaiting, .drop hwaiting⟩
          | false =>
              cases u with
              | nil => exact ⟨.feed .nil, .feed (.feed .nil)⟩
              | cons d u => exact ⟨hwaiting, .feed hwaiting⟩
        · obtain ⟨hplain, -⟩ := ih false
          cases kept with
          | true =>
              simp only [lineEnds, hending, if_true, if_false]
              exact ⟨.keep c hplain, .drop (.keep c hplain)⟩
          | false =>
              simp only [lineEnds, hending, Bool.false_eq_true, if_true, if_false]
              refine ⟨.keep c hplain, ?_⟩
              split
              · rename_i hfeed
                exact hfeed ▸ .drop (.keep _ hplain)
              · exact .feed (.keep c hplain)

/-- Escaping and reading keep a text up to the ends of its lines. -/
theorem reended_readBack (u : List Char) : Reended u (readBack u) :=
  (reended_lineEnds false u).1

theorem readBack_of_not_mem {u : List Char} (hnone : '\r' ∉ u) : readBack u = u :=
  (reended_readBack u).eq_of_not_mem hnone

end DeadlockCapture.Xml
