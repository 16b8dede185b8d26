import DeadlockCapture.Proofs.Sql.Collapse
import DeadlockCapture.Proofs.Sql.Gaps
import DeadlockCapture.Sql.Normalized

/-!
Redacted statements read again. Tokens are legible if each stands before the rendered text of those
that follow it; the lexer finds legible tokens in their own text.
-/

namespace DeadlockCapture.Sql

open DeadlockCapture.Text

def Token.lexeme (t : Token) : Lexeme :=
  ⟨.token t.kind, t.text⟩

/-- Each token stands before the text of those that follow it. -/
def Legible : List Token → Prop
  | [] => True
  | t :: r => t.lexeme.Stands (renderRest r) ∧ Legible r

/-- The lexemes of rendered tokens: a space for each gap. -/
def laid : List Token → List Lexeme
  | [] => []
  | t :: r => if t.spaced then ⟨.blank, [' ']⟩ :: t.lexeme :: laid r else t.lexeme :: laid r

theorem renderRest_cons (t : Token) (r : List Token) :
    renderRest (t :: r) = (if t.spaced then ' ' :: t.text else t.text) ++ renderRest r :=
  rfl

theorem textOf_laid (ts : List Token) : textOf (laid ts) = renderRest ts := by
  induction ts with
  | nil => rfl
  | cons t r ih =>
      rw [laid, renderRest_cons]
      split <;> simp [textOf_cons, Token.lexeme, ih]

theorem Legible.readable {ts : List Token} (h : Legible ts) : Readable (laid ts) := by
  induction ts with
  | nil => trivial
  | cons t r ih =>
      obtain ⟨hstands, hrest⟩ := h
      rw [← textOf_laid] at hstands
      rw [laid]
      split
      · exact ⟨stands_blank (by decide) _, hstands, ih hrest⟩
      · exact ⟨hstands, ih hrest⟩

theorem Legible.drop {ts : List Token} (h : Legible ts) (n : Nat) : Legible (ts.drop n) := by
  induction n generalizing ts with
  | zero => exact h
  | succ n ih =>
      cases ts with
      | nil => trivial
      | cons t r => exact ih h.2

theorem tokensAfter_laid (ts : List Token) : tokensAfter false (laid ts) = ts := by
  induction ts with
  | nil => rfl
  | cons t r ih =>
      obtain ⟨kind, text, spaced⟩ := t
      cases spaced <;> simp [laid, Token.lexeme, tokensAfter, ih]

theorem render_eq (ts : List Token) : render ts = renderRest (unspaced ts) := by
  cases ts <;> rfl

theorem Legible.unspaced {ts : List Token} (h : Legible ts) : Legible (unspaced ts) := by
  cases ts with
  | nil => trivial
  | cons t r => exact h

/-- The lexer finds legible tokens in their text. -/
theorem Legible.tokens_renderRest {ts : List Token} (h : Legible ts) :
    tokens (renderRest ts) = .ok ts :=
  tokens_eq_ok_iff.mpr ⟨laid ts, textOf_laid ts, h.readable, tokensAfter_laid ts⟩

theorem Legible.tokens_render {ts : List Token} (h : Legible ts) :
    tokens (render ts) = .ok (Sql.unspaced ts) := by
  rw [render_eq]
  exact h.unspaced.tokens_renderRest

/-! ### Redacted tokens -/

/-- A token as its text shows it: the text that stands for a literal shows a placeholder. -/
def Token.shown (t : Token) : Token :=
  if t.text = placeholderText then { t with kind := .placeholder } else t

theorem text_shown (t : Token) : t.shown.text = t.text := by
  unfold Token.shown
  split <;> rfl

theorem spaced_shown (t : Token) : t.shown.spaced = t.spaced := by
  unfold Token.shown
  split <;> rfl

theorem kind_shown {t : Token} (h : t.text = placeholderText) : t.shown.kind = .placeholder := by
  rw [Token.shown, if_pos h]

theorem shown_of_ne {t : Token} (h : t.text ≠ placeholderText) : t.shown = t :=
  if_neg h

theorem shown_of_word {t : Token} (hword : t.shown.kind = .word) : t.shown = t := by
  apply shown_of_ne
  intro hhidden
  rw [kind_shown hhidden] at hword
  cases hword

theorem Token.shown_actsAs (t : Token) : t.shown.ActsAs t := by
  by_cases hhidden : t.text = placeholderText
  · have hother : t.spells "IN" = false := spells_in_of_single hhidden
    have hshows : t.shown.spells "IN" = false := spells_in_of_single ((text_shown t).trans hhidden)
    exact ⟨fun c => by rw [text_shown], by simp [Token.IsIn, hother, hshows]⟩
  · rw [shown_of_ne hhidden]
    exact ⟨fun _ => Iff.rfl, Iff.rfl⟩

theorem renderRest_map_shown (ts : List Token) :
    renderRest (ts.map Token.shown) = renderRest ts := by
  simp only [renderRest, List.flatMap_map, text_shown, spaced_shown]

theorem render_map_shown (ts : List Token) : render (ts.map Token.shown) = render ts := by
  cases ts with
  | nil => rfl
  | cons t r => simp only [List.map_cons, render, text_shown, renderRest_map_shown]

theorem ruleFor_placeholder (r : List Char) : ruleFor '?' r = .placeholder := by
  have hplain : isBlank '?' = false ∧ '?'.isDigit = false := by decide
  simp [ruleFor, hplain]

theorem stands_placeholder {t : Token} (h : t.text = placeholderText)
    (hkind : t.kind = .placeholder) (r : List Char) : t.lexeme.Stands r := by
  refine ⟨'?', [], h, ?_⟩
  rw [leading, ruleFor_placeholder, Token.lexeme, hkind]
  rfl

def RedactionOptions.hides (o : RedactionOptions) (t : Token) : Bool :=
  match t.kind with
  | .text | .number => true
  | .word => o.isLiteralWord t
  | _ => false

theorem redact_eq {o : RedactionOptions} (hplain : o.replaceDigits = false) (t : Token) :
    o.redact t = if o.hides t then { t with text := placeholderText } else t := by
  obtain ⟨kind, text, spaced⟩ := t
  simp only [RedactionOptions.redact, RedactionOptions.redactedText, RedactionOptions.hides, hplain]
  cases kind <;> simp
  split <;> simp_all

/-- Redacting a redacted token as it shows changes nothing. -/
theorem redact_shown_redact {o : RedactionOptions} (hplain : o.replaceDigits = false) (t : Token) :
    o.redact (o.redact t).shown = (o.redact t).shown := by
  by_cases hhidden : (o.redact t).text = placeholderText
  · have hshows : o.hides (o.redact t).shown = false := by
      rw [RedactionOptions.hides, kind_shown hhidden]
    rw [redact_eq hplain, hshows]
    rfl
  · rw [shown_of_ne hhidden]
    rw [redact_eq hplain] at hhidden ⊢
    cases hvalue : o.hides t with
    | true => simp [hvalue] at hhidden
    | false => simp [redact_eq hplain, hvalue]

/-- Rendered tokens start with an inert character where a gap or a placeholder comes first. -/
theorem renderRest_inert {t : Token} (h : t.spaced = true ∨ t.text = placeholderText)
    (r : List Token) : ∀ c ∈ (renderRest (t :: r)).head?, Inert c := by
  intro c hc
  rw [renderRest_cons] at hc
  cases hspaced : t.spaced with
  | true =>
      simp only [hspaced, if_true, List.cons_append, List.head?_cons, Option.mem_some_iff] at hc
      exact hc ▸ .inl (by decide)
  | false =>
      have htext := h.resolve_left (by simp [hspaced])
      simp [hspaced, htext, placeholderText] at hc
      exact .inr hc.symm

theorem Calmer.refl (r : List Char) : Calmer r r :=
  ⟨fun _ h => .inl h, id, id, id⟩

theorem renderRest_after_gap (o : RedactionOptions) (ls : List Lexeme) :
    ∀ c ∈ (renderRest ((tokensAfter true ls).map fun t => (o.redact t).shown)).head?, Inert c := by
  induction ls with
  | nil => simp [tokensAfter, renderRest]
  | cons l ls ih =>
      obtain ⟨kind, text⟩ := l
      cases kind with
      | blank => exact ih
      | comment => exact ih
      | token kind => exact renderRest_inert (.inl (spaced_shown _)) _

/-- The redacted tokens of a statement are legible as they show, and their text carries a lexeme
before it no further than the statement itself. -/
theorem legible_of_readable {o : RedactionOptions} (hplain : o.replaceDigits = false)
    {ls : List Lexeme} (hreadable : Readable ls) (gap : Bool) :
    Legible ((tokensAfter gap ls).map fun t => (o.redact t).shown) ∧
      Calmer (textOf ls) (renderRest ((tokensAfter gap ls).map fun t => (o.redact t).shown)) := by
  induction ls generalizing gap with
  | nil => exact ⟨trivial, Calmer.refl _⟩
  | cons l ls ih =>
      obtain ⟨hstands, hreadable⟩ := hreadable
      obtain ⟨kind, text⟩ := l
      cases kind with
      | blank => exact ⟨(ih hreadable true).1, Calmer.of_inert (renderRest_after_gap o ls)⟩
      | comment => exact ⟨(ih hreadable true).1, Calmer.of_inert (renderRest_after_gap o ls)⟩
      | token kind =>
          obtain ⟨hlegible, hcalm⟩ := ih hreadable false
          have hfront : ∀ {t : Token}, t.text = placeholderText → ∀ r : List Token,
              Calmer (textOf (⟨.token kind, text⟩ :: ls)) (renderRest (t :: r)) :=
            fun hhidden r => Calmer.of_inert (renderRest_inert (.inr hhidden) r)
          simp only [tokensAfter, List.map_cons]
          by_cases hhidden : (o.redact ⟨kind, text, gap⟩).text = placeholderText
          · have hshows := (text_shown _).trans hhidden
            exact ⟨⟨stands_placeholder hshows (kind_shown hhidden) _, hlegible⟩, hfront hshows _⟩
          · have hkept : (o.redact ⟨kind, text, gap⟩).shown = ⟨kind, text, gap⟩ := by
              rw [shown_of_ne hhidden]
              rw [redact_eq hplain] at hhidden ⊢
              cases hvalue : o.hides ⟨kind, text, gap⟩ with
              | true => simp [hvalue] at hhidden
              | false => simp
            rw [hkept]
            refine ⟨⟨hstands.calmer rfl hcalm, hlegible⟩, ?_⟩
            cases gap with
            | true => exact Calmer.of_inert (renderRest_inert (.inl rfl) _)
            | false => exact hcalm.append text

theorem legible_collapseLists {ts : List Token} (hlegible : Legible ts)
    (hshown : ∀ t ∈ ts, t.text = placeholderText → t.kind = .placeholder) :
    Legible (collapseLists ts) ∧ Calmer (renderRest ts) (renderRest (collapseLists ts)) := by
  fun_induction collapseLists ts with
  | case1 => exact ⟨trivial, Calmer.refl _⟩
  | case2 t r n hfound ih =>
      obtain ⟨opening, item, inner, rfl, hfirst, -⟩ := surplus_some hfound
      obtain ⟨hstands, hopens, hitemStands, hrest⟩ := hlegible
      have hinside : Legible (opening :: item :: inner) := ⟨hopens, hitemStands, hrest⟩
      obtain ⟨hkept, -⟩ := ih (hinside.drop _)
        fun u hu => hshown u (List.mem_cons_of_mem _ (List.mem_of_mem_drop hu))
      have hcalm : ∀ qs, Calmer (renderRest (item :: inner)) (renderRest (item :: qs)) :=
        fun qs => Calmer.of_inert (renderRest_inert (.inr hfirst) qs)
      have hsingle := stands_placeholder hfirst (hshown item (by simp) hfirst)
      simp only [List.take_succ_cons, List.take_zero, List.cons_append, List.nil_append]
      exact ⟨⟨hstands.calmer rfl ((hcalm _).append _), hopens.calmer rfl (hcalm _), hsingle _,
        hkept⟩, ((hcalm _).append _).append _⟩
  | case3 t r hfound ih =>
      obtain ⟨hstands, hrest⟩ := hlegible
      obtain ⟨hkept, hcalm⟩ := ih hrest fun u hu => hshown u (List.mem_cons_of_mem _ hu)
      exact ⟨⟨hstands.calmer rfl hcalm, hkept⟩, hcalm.append _⟩

/-! ### Normal forms -/

theorem pieces_map_shown (o : RedactionOptions) (ts : List Token) :
    (o.pieces ts).map Token.shown =
      if o.collapseLists then collapseLists (ts.map fun t => (o.redact t).shown)
      else ts.map fun t => (o.redact t).shown := by
  cases hlists : o.collapseLists with
  | true =>
      simp only [RedactionOptions.pieces, hlists, if_true]
      rw [← collapseLists_map fun t _ => t.shown_actsAs, List.map_map]
      rfl
  | false => simp [RedactionOptions.pieces, hlists]

theorem legible_pieces {o : RedactionOptions} (hplain : o.replaceDigits = false) {ls : List Lexeme}
    (hreadable : Readable ls) (gap : Bool) :
    Legible ((o.pieces (tokensAfter gap ls)).map Token.shown) := by
  have hwhole := (legible_of_readable hplain hreadable gap).1
  rw [pieces_map_shown]
  split
  · refine (legible_collapseLists hwhole fun t ht hhidden => ?_).1
    obtain ⟨u, -, rfl⟩ := List.mem_map.mp ht
    exact kind_shown ((text_shown _).symm.trans hhidden)
  · exact hwhole

/-- The lexer finds the redacted tokens of a statement in their text, as they show. -/
theorem tokens_render_pieces {o : RedactionOptions} (hplain : o.replaceDigits = false)
    {s : List Char} {ts : List Token} (h : tokens s = .ok ts) :
    tokens (render (o.pieces ts)) = .ok (unspaced ((o.pieces ts).map Token.shown)) := by
  obtain ⟨ls, -, hreadable, rfl⟩ := tokens_eq_ok_iff.mp h
  rw [← render_map_shown]
  exact (legible_pieces hplain hreadable false).tokens_render

theorem pieces_unspaced (o : RedactionOptions) (ts : List Token) :
    o.pieces (unspaced ts) = unspaced (o.pieces ts) := by
  cases ts with
  | nil =>
      unfold RedactionOptions.pieces
      cases o.collapseLists <;> simp [unspaced, collapseLists_nil]
  | cons t r =>
      unfold RedactionOptions.pieces
      cases o.collapseLists with
      | true =>
          simp only [unspaced, List.map_cons, if_true, collapseLists_cons]
          rfl
      | false => rfl

/-- The normal form of a statement does not see a gap in front of it. -/
theorem ofPieces_unspaced (o : RedactionOptions) (ps : List Token) :
    Normalized.ofPieces o (unspaced ps) = Normalized.ofPieces o ps := by
  cases ps with
  | nil => rfl
  | cons t r => rfl

/-- The normal form of a text that the lexer divides, from any tokens it may be taken to have. -/
theorem normalize_of_tokens {o : RedactionOptions} {x : String} {ts : List Token}
    (h : tokens x.toList = .ok ts) : o.normalize x = .ofPieces o (o.pieces ts) := by
  obtain ⟨us, htrimmed, hsame⟩ := tokens_trim h
  rw [RedactionOptions.normalize, statementOf, htrimmed]
  simp only
  rw [← ofPieces_unspaced, ← pieces_unspaced, hsame, pieces_unspaced, ofPieces_unspaced]

/-- Nothing is the normal form of nothing, whatever the options. -/
theorem normalize_nothing (o : RedactionOptions) : o.normalize "" = .empty := by
  have hdivided : tokens "".toList = .ok [] := tokens_eq_ok_iff.mpr ⟨[], rfl, trivial, rfl⟩
  have hpieces : o.pieces [] = [] := by
    unfold RedactionOptions.pieces
    cases o.collapseLists <;> simp [collapseLists_nil]
  rw [normalize_of_tokens hdivided, hpieces]
  unfold Normalized.ofPieces
  cases o.extractMetadata <;> rfl

end DeadlockCapture.Sql
