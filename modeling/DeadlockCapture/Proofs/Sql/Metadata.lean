import DeadlockCapture.Proofs.Sql.Shape

/-!
The verbs and the tables of a redacted statement, read off its text. A hidden literal keeps the kind
that it had in the statement, and its text shows a placeholder. No verb depends on the difference. A
table's name does: a word for a value is still a word when it is hidden, so it may stand where a
name is expected.
-/

namespace DeadlockCapture.Sql

variable {o : RedactionOptions}

/-! ### Placeholders and names -/

theorem upper_of_placeholder {t : Token} (h : t.text = placeholderText) : t.upper = "?" := by
  rw [Token.upper, h]
  rfl

theorem verb?_shown (t : Token) : verb? t.shown = verb? t := by
  by_cases hhidden : t.text = placeholderText
  · have hnoVerb : verbs.contains "?" = false := by decide
    have hupper := upper_of_placeholder hhidden
    have hshows := upper_of_placeholder ((text_shown t).trans hhidden)
    simp only [verb?, hupper, hshows, hnoVerb, Bool.false_eq_true, and_false, if_false]
  · rw [shown_of_ne hhidden]

theorem verbsOf_map_shown (ps : List Token) : verbsOf (ps.map Token.shown) = verbsOf ps := by
  rw [verbsOf, List.filterMap_map]
  exact congrArg (List.filterMap · ps) (funext verb?_shown)

/-- A table is named after this word. -/
def Token.IntroducesTable (t : Token) : Prop :=
  t.kind = .word ∧ tableIntroducers.contains t.upper = true

instance : DecidablePred Token.IntroducesTable :=
  fun t => inferInstanceAs (Decidable (t.kind = .word ∧ tableIntroducers.contains t.upper = true))

theorem introducesTable_shown (t : Token) : t.shown.IntroducesTable ↔ t.IntroducesTable := by
  by_cases hhidden : t.text = placeholderText
  · have hnoIntroducer : tableIntroducers.contains "?" = false := by decide
    have hupper := upper_of_placeholder hhidden
    have hshows := upper_of_placeholder ((text_shown t).trans hhidden)
    simp only [Token.IntroducesTable, hupper, hshows, hnoIntroducer, Bool.false_eq_true, and_false]
  · rw [shown_of_ne hhidden]

theorem isName_shown {t : Token} (h : t.text ≠ placeholderText) : t.shown.isName = t.isName := by
  rw [shown_of_ne h]

theorem isName_shown_of_placeholder {t : Token} (h : t.text = placeholderText) :
    t.shown.isName = false := by
  rw [Token.isName, kind_shown h]
  rfl

/-! ### Parts of names -/

/-- The tokens that follow the first part of a dotted name as parts of it. -/
def laterParts : List Token → List Token
  | dot :: part :: r =>
    if dot.text = ['.'] ∧ !dot.spaced ∧ !part.spaced ∧ part.isName then part :: laterParts r
    else []
  | _ => []

/-- The parts of the table's name in front. -/
def nameParts (ts : List Token) : List Token :=
  if (tableName? ts).isSome then ts.take 1 ++ laterParts ts.tail else []

/-- The parts of the names of a statement's tables. -/
def tableParts : List Token → List Token
  | [] => []
  | t :: r => if t.IntroducesTable then nameParts r ++ tableParts r else tableParts r

theorem tablesOf_cons (t : Token) (r : List Token) :
    tablesOf (t :: r) =
      if t.IntroducesTable then (tableName? r).toList ++ tablesOf r else tablesOf r :=
  rfl

theorem dottedParts_map_shown {ps : List Token}
    (h : ∀ p ∈ laterParts ps, p.text ≠ placeholderText) :
    dottedParts (ps.map Token.shown) = dottedParts ps := by
  fun_induction dottedParts ps with
  | case1 dot part r hjoined ih =>
      rw [laterParts, if_pos hjoined] at h
      obtain ⟨hshows, hlater⟩ := List.forall_mem_cons.mp h
      simp only [List.map_cons, dottedParts, text_shown, spaced_shown, isName_shown hshows]
      rw [if_pos hjoined, ih hlater]
  | case2 dot part r hapart =>
      have hapart' : ¬ (dot.text = ['.'] ∧ (!dot.spaced) = true ∧ (!part.spaced) = true ∧
          part.shown.isName = true) := by
        rintro ⟨hpoint, hnear, hclose, hname⟩
        by_cases hhidden : part.text = placeholderText
        · rw [isName_shown_of_placeholder hhidden] at hname
          cases hname
        · exact hapart ⟨hpoint, hnear, hclose, isName_shown hhidden ▸ hname⟩
      simp only [List.map_cons, dottedParts, text_shown, spaced_shown]
      exact if_neg hapart'
  | case3 ps hshort =>
      match ps with
      | [] => rfl
      | [t] => rfl
      | t :: u :: r => exact absurd rfl (hshort t u r)

/-- A hidden literal in front is no table's name once its text is read again. -/
theorem tableName?_map_shown {ps : List Token} (h : ∀ p ∈ nameParts ps, p.text ≠ placeholderText) :
    tableName? (ps.map Token.shown) = tableName? ps := by
  cases ps with
  | nil => rfl
  | cons first r =>
      cases hnamed : tableName? (first :: r) with
      | some name =>
          rw [nameParts, hnamed] at h
          obtain ⟨hshows, hlater⟩ := List.forall_mem_cons.mp h
          have hrest : dottedParts (r.map Token.shown) = dottedParts r :=
            dottedParts_map_shown hlater
          rw [← hnamed]
          simp only [List.map_cons, tableName?, shown_of_ne hshows, hrest]
      | none =>
          by_cases hhidden : first.text = placeholderText
          · simp [tableName?, isName_shown_of_placeholder hhidden]
          · rw [← hnamed]
            rw [tableName?] at hnamed
            split at hnamed
            · cases hnamed
            · rename_i hother
              simp only [List.map_cons, tableName?, shown_of_ne hhidden]
              rw [if_neg hother, if_neg hother]

theorem tablesOf_map_shown {ps : List Token} (h : ∀ p ∈ tableParts ps, p.text ≠ placeholderText) :
    tablesOf (ps.map Token.shown) = tablesOf ps := by
  induction ps with
  | nil => rfl
  | cons t r ih =>
      rw [List.map_cons, tablesOf_cons, tablesOf_cons]
      simp only [introducesTable_shown]
      rw [tableParts] at h
      split
      · rename_i hintroduces
        rw [if_pos hintroduces] at h
        obtain ⟨hname, hlater⟩ := List.forall_mem_append.mp h
        rw [tableName?_map_shown hname, ih hlater]
      · rename_i hother
        rw [if_neg hother] at h
        exact ih h

/-! ### Which parts are hidden -/

theorem mem_laterParts {ps : List Token} {p : Token} (h : p ∈ laterParts ps) :
    p ∈ ps ∧ p.isName = true := by
  fun_induction laterParts ps with
  | case1 dot part r hjoined ih =>
      obtain rfl | hlater := List.mem_cons.mp h
      · exact ⟨by simp, hjoined.2.2.2⟩
      · obtain ⟨hmember, hname⟩ := ih hlater
        exact ⟨List.mem_cons_of_mem _ (List.mem_cons_of_mem _ hmember), hname⟩
  | case2 => cases h
  | case3 => cases h

theorem mem_nameParts {ps : List Token} {p : Token} (h : p ∈ nameParts ps) :
    p ∈ ps ∧ p.isName = true := by
  unfold nameParts at h
  split at h
  · rename_i hnamed
    cases ps with
    | nil => cases hnamed
    | cons first r =>
        obtain rfl | hlater := List.mem_cons.mp h
        · rw [tableName?] at hnamed
          split at hnamed
          · rename_i hname
            exact ⟨List.mem_cons_self, ((Bool.and_eq_true _ _).mp hname).1⟩
          · cases hnamed
        · obtain ⟨hmember, hname⟩ := mem_laterParts hlater
          exact ⟨List.mem_cons_of_mem _ hmember, hname⟩
  · cases h

theorem mem_tableParts {ps : List Token} {p : Token} (h : p ∈ tableParts ps) :
    p ∈ ps ∧ p.isName = true := by
  induction ps with
  | nil => cases h
  | cons t r ih =>
      rw [tableParts] at h
      split at h
      · obtain hfirst | hlater := List.mem_append.mp h
        · exact (mem_nameParts hfirst).imp_left (List.mem_cons_of_mem t)
        · exact (ih hlater).imp_left (List.mem_cons_of_mem t)
      · exact (ih h).imp_left (List.mem_cons_of_mem t)

/-- No part of a table's name in the statement is hidden. -/
def RedactionOptions.ShowsTables (o : RedactionOptions) (x : String) : Prop :=
  ∀ ts ∈ (tokens (statementOf x)).toOption, ∀ p ∈ tableParts (o.pieces ts), p.text ≠ placeholderText

instance (x : String) : Decidable (o.ShowsTables x) :=
  inferInstanceAs (Decidable (∀ ts ∈ (tokens (statementOf x)).toOption,
    ∀ p ∈ tableParts (o.pieces ts), p.text ≠ placeholderText))

theorem ne_placeholder_of_stands {t : Token} {r : List Char} (hstands : t.lexeme.Stands r)
    (hname : t.isName = true) : t.text ≠ placeholderText := by
  intro hsame
  obtain ⟨c, w, htext, hfound⟩ := hstands
  have htext : t.text = c :: w := htext
  obtain ⟨rfl, rfl⟩ : c = '?' ∧ w = [] := by simpa [htext, placeholderText] using hsame
  rw [leading, ruleFor_placeholder] at hfound
  have hkind : TokenKind.placeholder = t.kind := by simpa [Rule.read, Token.lexeme] using hfound
  rw [Token.isName, ← hkind] at hname
  cases hname

/-- Only a word for a value is hidden where a table's name is read. -/
theorem showsTables_of_no_literal_word (hplain : o.replaceDigits = false) {x : String}
    (hnone : ∀ ts, tokens (statementOf x) = .ok ts → ∀ t ∈ ts, t.kind = .word →
      o.isLiteralWord t = false) : o.ShowsTables x := by
  intro ts hdivided p hmember
  have hfound : tokens (statementOf x) = .ok ts := by
    cases hresult : tokens (statementOf x) with
    | error e =>
        rw [hresult] at hdivided
        cases hdivided
    | ok us =>
        rw [hresult] at hdivided
        cases hdivided
        rfl
  obtain ⟨hinside, hname⟩ := mem_tableParts hmember
  obtain ⟨t, htoken, rfl⟩ := redact_of_mem_pieces hinside
  obtain ⟨ls, -, hreadable, rfl⟩ := tokens_eq_ok_iff.mp hfound
  obtain ⟨r, hstands⟩ := hreadable.stands_of_mem (mem_of_mem_tokensAfter htoken)
  have hnamed : t.isName = true := hname
  have hshows : o.hides t = false := by
    have hvalue := hnone _ hfound t htoken
    obtain ⟨kind, text, spaced⟩ := t
    cases kind with
    | word => exact hvalue rfl
    | quotedName => rfl
    | _ => cases hnamed
  rw [redact_eq hplain, hshows]
  exact ne_placeholder_of_stands hstands hnamed

/-! ### Statements of one redacted text -/

/-- The redacted text of a statement has the verbs of the statement, and its tables if none of their
names is hidden in part. -/
theorem metadata_redacted (hplain : o.replaceDigits = false) {x : String}
    (hreadable : (o.normalize x).unreadable = false) :
    (o.normalize (o.normalize x).redacted).commands = (o.normalize x).commands ∧
      (o.ShowsTables x →
        (o.normalize (o.normalize x).redacted).tables = (o.normalize x).tables) := by
  cases hfound : tokens (statementOf x) with
  | error e =>
      rw [RedactionOptions.normalize, hfound] at hreadable
      cases hreadable
  | ok ts =>
      have hfirst : o.normalize x = .ofPieces o (o.pieces ts) := by
        rw [RedactionOptions.normalize, hfound]
      have hsecond : o.normalize (o.normalize x).redacted =
          .ofPieces o ((o.pieces ts).map Token.shown) := by
        rw [hfirst]
        exact normalize_render_pieces hplain hfound
      rw [hsecond, hfirst]
      constructor
      · simp only [Normalized.ofPieces, verbsOf_map_shown]
      · intro hshows
        have hdivided : ts ∈ (tokens (statementOf x)).toOption := by
          rw [hfound]
          rfl
        have hparts := hshows ts hdivided
        simp only [Normalized.ofPieces, tablesOf_map_shown hparts]

/-- Statements of one redacted text have the same verbs, and the same tables if none of their names
is hidden in part. -/
theorem metadata_of_redacted_text (hplain : o.replaceDigits = false) {x x' : String}
    (hreadable : (o.normalize x).unreadable = false)
    (hreadable' : (o.normalize x').unreadable = false)
    (hsame : (o.normalize x).redacted = (o.normalize x').redacted) :
    (o.normalize x).commands = (o.normalize x').commands ∧
      (o.ShowsTables x → o.ShowsTables x' →
        (o.normalize x).tables = (o.normalize x').tables) := by
  obtain ⟨hverbs, htables⟩ := metadata_redacted hplain hreadable
  obtain ⟨hverbs', htables'⟩ := metadata_redacted hplain hreadable'
  rw [← hsame] at hverbs' htables'
  constructor
  · exact hverbs.symm.trans hverbs'
  · intro hshows hshows'
    exact (htables hshows).symm.trans (htables' hshows')

def queryForNumber : String :=
  "SELECT a FROM t WHERE b = 1"

def queryForNull : String :=
  "SELECT a FROM t WHERE b = NULL"

theorem queries_of_one_text_have_same_metadata :
    (({} : RedactionOptions).replaceDigits = false ∧
      (RedactionOptions.normalize {} queryForNumber).unreadable = false ∧
      (RedactionOptions.normalize {} queryForNull).unreadable = false ∧
      (RedactionOptions.normalize {} queryForNumber).redacted =
        (RedactionOptions.normalize {} queryForNull).redacted ∧
      RedactionOptions.ShowsTables {} queryForNumber ∧
      RedactionOptions.ShowsTables {} queryForNull) ∧
      (RedactionOptions.normalize {} queryForNumber).commands =
        (RedactionOptions.normalize {} queryForNull).commands ∧
      (RedactionOptions.normalize {} queryForNumber).tables =
        (RedactionOptions.normalize {} queryForNull).tables := by
  have hreadable : (RedactionOptions.normalize {} queryForNumber).unreadable = false := by
    decide +kernel
  have hreadable' : (RedactionOptions.normalize {} queryForNull).unreadable = false := by
    decide +kernel
  have hsame : (RedactionOptions.normalize {} queryForNumber).redacted =
      (RedactionOptions.normalize {} queryForNull).redacted := by decide +kernel
  have hshows : RedactionOptions.ShowsTables {} queryForNumber := by decide +kernel
  have hshows' : RedactionOptions.ShowsTables {} queryForNull := by decide +kernel
  obtain ⟨hverbs, htables⟩ := metadata_of_redacted_text rfl hreadable hreadable' hsame
  exact ⟨⟨rfl, hreadable, hreadable', hsame, hshows, hshows'⟩, hverbs, htables hshows hshows'⟩

/-- The word NULL is taken for a table, and the number that has the same placeholder is none. -/
theorem hidden_word_is_named_as_table :
    (RedactionOptions.normalize {} "SELECT * FROM NULL").unreadable = false ∧
      (RedactionOptions.normalize {} "SELECT * FROM 1").unreadable = false ∧
      (RedactionOptions.normalize {} "SELECT * FROM NULL").redacted =
        (RedactionOptions.normalize {} "SELECT * FROM 1").redacted ∧
      (RedactionOptions.normalize {} "SELECT * FROM NULL").tables = ["?"] ∧
      (RedactionOptions.normalize {} "SELECT * FROM 1").tables = [] := by
  refine ⟨?_, ?_, ?_, ?_, ?_⟩ <;> decide +kernel

end DeadlockCapture.Sql
