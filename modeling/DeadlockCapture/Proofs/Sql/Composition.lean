import DeadlockCapture.Proofs.Sql.Gaps

/-!
Statements put together from parts. The lexemes of a part are found again in front of a text that
does not carry the last of them on, and the lexer goes on after them with that text alone.
-/

namespace DeadlockCapture.Sql

open DeadlockCapture.Text

/-- Each lexeme stands before the text of those that follow it and `s` after them. -/
def ReadableBefore (s : List Char) : List Lexeme → Prop
  | [] => True
  | l :: r => l.Stands (textOf r ++ s) ∧ ReadableBefore s r

theorem readableBefore_append {ls ms : List Lexeme} {s : List Char} :
    ReadableBefore s (ls ++ ms) ↔ ReadableBefore (textOf ms ++ s) ls ∧ ReadableBefore s ms := by
  induction ls with
  | nil => simp [ReadableBefore]
  | cons l ls ih =>
      rw [List.cons_append, ReadableBefore, ReadableBefore, ih, textOf_append, List.append_assoc,
        and_assoc]

theorem readable_append_iff {ls ms : List Lexeme} :
    Readable (ls ++ ms) ↔ ReadableBefore (textOf ms) ls ∧ Readable ms := by
  induction ls with
  | nil => simp [ReadableBefore]
  | cons l ls ih => rw [List.cons_append, Readable, ReadableBefore, ih, textOf_append, and_assoc]

theorem readableBefore_nil_iff {ls : List Lexeme} : ReadableBefore [] ls ↔ Readable ls := by
  have hsplit := @readable_append_iff ls []
  rw [List.append_nil] at hsplit
  exact ⟨fun hbefore => hsplit.mpr ⟨hbefore, trivial⟩, fun hreadable => (hsplit.mp hreadable).1⟩

/-- Lexemes are found before every text that is calmer than the one they are found before and that
starts with a line break if the other does so. -/
theorem ReadableBefore.calmer {ls : List Lexeme} {s s' : List Char} (h : ReadableBefore s ls)
    (hcalm : Calmer s s') (hlines : (∀ c ∈ s.head?, c = '\n') → ∀ c ∈ s'.head?, c = '\n') :
    ReadableBefore s' ls := by
  induction ls with
  | nil => trivial
  | cons l ls ih =>
      obtain ⟨hstands, hrest⟩ := h
      refine ⟨hstands.before (hcalm.append (textOf ls)) ?_, ih hrest⟩
      cases textOf ls with
      | nil => exact hlines
      | cons d t => exact id

theorem textOf_ne_nil {l : Lexeme} {r : List Char} (h : l.Stands r) (ls : List Lexeme) :
    textOf (l :: ls) ≠ [] := by
  obtain ⟨c, w, htext, -⟩ := h
  simp [textOf_cons, htext]

/-- The lexemes of a statement are found in front of a text that calms what comes before it, unless
a comment at the end goes on into that text. -/
theorem Readable.before {ls : List Lexeme} (hreadable : Readable ls) {s : List Char}
    (hcalm : Calmer [] s) (hclosed : ∀ l ∈ ls.getLast?, ¬ l.RunsOn) : ReadableBefore s ls := by
  induction ls with
  | nil => trivial
  | cons l ls ih =>
      obtain ⟨hstands, hreadable⟩ := hreadable
      have hnear : Calmer (textOf ls) (textOf ls ++ s) := by
        have hmore := hcalm.append (textOf ls)
        rwa [List.append_nil] at hmore
      cases ls with
      | nil => exact ⟨hstands.across hnear fun hrunsOn => absurd hrunsOn (hclosed l rfl), trivial⟩
      | cons m ls =>
          refine ⟨hstands.across hnear fun _ hlines c hc => hlines c ?_, ih hreadable ?_⟩
          · obtain ⟨d, t, hfirst⟩ := List.exists_cons_of_ne_nil (textOf_ne_nil hreadable.1 ls)
            rw [hfirst] at hc ⊢
            exact hc
          · intro l hmember
            exact hclosed l (by rwa [List.getLast?_cons_cons])

theorem utf8Length_append (s t : List Char) :
    utf8Length (s ++ t) = utf8Length s + utf8Length t := by
  induction s with
  | nil => simp [utf8Length]
  | cons c s ih =>
      simp only [utf8Length, List.cons_append, List.foldr_cons] at ih ⊢
      rw [ih, Nat.add_assoc]

/-- After lexemes that stand before a text, the lexer goes on with the text. -/
theorem lexemesFrom_append {ls : List Lexeme} {s : List Char} (hfront : ReadableBefore s ls)
    (offset : Nat) :
    lexemesFrom offset (textOf ls ++ s) =
      (lexemesFrom (offset + utf8Length (textOf ls)) s).map (ls ++ ·) := by
  induction ls generalizing offset with
  | nil =>
      rw [textOf, List.flatMap_nil, List.nil_append, utf8Length, List.foldr_nil, Nat.add_zero]
      cases lexemesFrom offset s <;> rfl
  | cons l ls ih =>
      obtain ⟨⟨c, w, htext, hfound⟩, hrest⟩ := hfront
      have hwhole : l = ⟨l.kind, c :: w⟩ := by rw [← htext]
      rw [textOf_cons, List.append_assoc, htext, List.cons_append, lexemesFrom_cons, hfound]
      simp only [List.take_left, List.drop_left]
      rw [ih hrest, utf8Length_append, Nat.add_assoc, ← hwhole]
      cases lexemesFrom (offset + (utf8Length (c :: w) + utf8Length (textOf ls))) s <;> rfl

/-- A statement that begins with lexemes that stand before the rest consists of them and the lexemes
of the rest. -/
theorem lexemes_append_eq_ok_iff {ls ns : List Lexeme} {s : List Char}
    (hfront : ReadableBefore s ls) :
    lexemes (textOf ls ++ s) = .ok ns ↔ ∃ ms, ns = ls ++ ms ∧ textOf ms = s ∧ Readable ms := by
  rw [lexemes, lexemesFrom_append hfront, map_eq_ok_iff]
  simp only [lexemesFrom_eq_ok_iff]
  constructor
  · rintro ⟨ms, hreadable, rfl⟩
    exact ⟨ms, rfl, hreadable⟩
  · rintro ⟨ms, rfl, hreadable⟩
    exact ⟨ms, hreadable, rfl⟩

/-! ### Tokens of a composition -/

theorem tokensAfter_append_blank (gap : Bool) (ls : List Lexeme) {text : List Char}
    (ms : List Lexeme) :
    tokensAfter gap (ls ++ ⟨.blank, text⟩ :: ms) = tokensAfter gap ls ++ tokensAfter true ms := by
  induction ls generalizing gap with
  | nil => rfl
  | cons l ls ih =>
      obtain ⟨kind, text⟩ := l
      cases kind with
      | blank => exact ih true
      | comment => exact ih true
      | token kind => exact congrArg (_ :: ·) (ih false)

/-- Whether a token is set apart depends on what stands in front of it, and the tokens after it do
not depend on that. -/
theorem tokensAfter_append_token (gap : Bool) (ls : List Lexeme) (kind : TokenKind)
    (ms : List Lexeme) :
    ∃ spaced, ∀ text, tokensAfter gap (ls ++ ⟨.token kind, text⟩ :: ms) =
      tokensAfter gap ls ++ ⟨kind, text, spaced⟩ :: tokensAfter false ms := by
  induction ls generalizing gap with
  | nil => exact ⟨gap, fun text => rfl⟩
  | cons l ls ih =>
      obtain ⟨first, text⟩ := l
      cases first with
      | blank => exact ih true
      | comment => exact ih true
      | token first =>
          obtain ⟨spaced, hrest⟩ := ih false
          exact ⟨spaced, fun other => congrArg (_ :: ·) (hrest other)⟩

end DeadlockCapture.Sql
