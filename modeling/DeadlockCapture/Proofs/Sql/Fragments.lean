import DeadlockCapture.Proofs.Sql.Concealment

/-!
The fragments of a name whose digits are replaced. Read again, such a name falls into words,
variables, marks and placeholders, and each fragment is read as it is read in the name alone.
-/

namespace DeadlockCapture.Sql

open DeadlockCapture.Text

/-- Each token stands before the text of those that follow it and a text after them all. -/
def LegibleBefore (s : List Char) : List Token → Prop
  | [] => True
  | t :: r => t.lexeme.Stands (renderRest r ++ s) ∧ LegibleBefore s r

theorem discreet_nil : Discreet [] :=
  ⟨[], rfl, trivial, by simp⟩

theorem renderRest_append (ts us : List Token) :
    renderRest (ts ++ us) = renderRest ts ++ renderRest us :=
  List.flatMap_append

theorem LegibleBefore.append {ts us : List Token} (h : LegibleBefore (renderRest us) ts)
    (hlegible : Legible us) : Legible (ts ++ us) := by
  induction ts with
  | nil => exact hlegible
  | cons t ts ih =>
      obtain ⟨hstands, hrest⟩ := h
      rw [← renderRest_append] at hstands
      exact ⟨hstands, ih hrest⟩

theorem head_any_append {p : Char → Bool} {v s : List Char} (hstops : ∀ c ∈ s.head?, p c = false) :
    (v ++ s).head?.any p = v.head?.any p := by
  cases v with
  | nil =>
      cases s with
      | nil => rfl
      | cons c s => exact hstops c rfl
  | cons c v => rfl

/-- Fragments are read alone as they are read in front of a text that goes on with no name. -/
theorem leading_fragment_append {d : Char} {v s : List Char} (hfirst : Fragment d)
    (hrest : ∀ c ∈ v, Fragment c) (hstops : ∀ c ∈ s.head?, continuesName c = false)
    (h : Discreet s) : leading d (v ++ s) = leading d v := by
  have hquote := not_quote_of_fragments hrest discreet_nil
  have hnumber := startsNumber_of_fragments hrest discreet_nil
  rw [List.append_nil] at hquote hnumber
  have hrun : nameRun (v ++ s) = nameRun v :=
    congrArg List.length (takeWhile_append_of_stops hstops)
  have hnoName : ∀ c ∈ s.head?, startsName c = false := by
    intro c hc
    rw [← Bool.not_eq_true]
    intro hname
    exact absurd (continuesName_of_startsName hname) (by simp [hstops c hc])
  have hnoMark : ∀ c ∈ s.head?, (c == '@') = false := by
    intro c hc
    rw [beq_eq_false_iff_ne]
    rintro rfl
    exact absurd (hstops '@' hc) (by decide)
  have htail : v.head? = some '@' → nameRun (v ++ s).tail = nameRun v.tail := by
    intro hmark
    cases v with
    | nil => cases hmark
    | cons c v => exact congrArg List.length (takeWhile_append_of_stops hstops)
  have hmark (r : List Char) : (r.head? = some '@') = (r.head?.any (· == '@') = true) := by
    cases r <;> simp
  have hrule : ruleFor d (v ++ s) = ruleFor d v := by
    rw [ruleFor_fragment hfirst (not_quote_of_fragments hrest h) 
      (startsNumber_of_fragments hrest h), ruleFor_fragment hfirst hquote hnumber]
    simp only [hmark, head_any_append hnoName, head_any_append hnoMark]
  rw [leading, leading, hrule, ruleFor_fragment hfirst hquote hnumber]
  split
  · exact congrArg (fun n => Except.ok (LexemeKind.token .variable, n)) hrun
  · split
    · rename_i hglobally
      exact congrArg (fun n => Except.ok (LexemeKind.token .variable, 1 + n)) (htail hglobally.2)
    · split
      · rfl
      · split
        · exact congrArg (fun n => Except.ok (LexemeKind.token .word, n)) hrun
        · rfl

/-- Fragments are tokens that the lexer finds in their text and in front of every discreet text that
goes on with no name. -/
theorem legible_fragments {u : List Char} (hu : ∀ c ∈ u, Fragment c) :
    ∃ us : List Token, renderRest us = u ∧
      (∀ t ∈ us, t.spaced = false ∧ t.kind ∈ [.word, .variable, .placeholder, .mark]) ∧
      ∀ s, Discreet s → (∀ c ∈ s.head?, continuesName c = false) → LegibleBefore s us := by
  match u, hu with
  | [], _ => exact ⟨[], rfl, by simp, fun _ _ _ => trivial⟩
  | d :: v, hu =>
      obtain ⟨hfirst, hrest⟩ := List.forall_mem_cons.mp hu
      obtain ⟨kind, n, hfound, hshows, hinside⟩ :=
        leading_fragment hfirst hrest (s := []) (by simp) discreet_nil
      rw [List.append_nil] at hfound
      obtain ⟨us, htext, hkinds, hlegible⟩ :=
        legible_fragments fun c hc => hrest c (List.mem_of_mem_drop (i := n) hc)
      refine ⟨⟨kind, d :: v.take n, false⟩ :: us, ?_, ?_, ?_⟩
      · rw [renderRest_cons, htext]
        exact congrArg (d :: ·) (List.take_append_drop n v)
      · exact List.forall_mem_cons.mpr ⟨⟨rfl, hshows⟩, hkinds⟩
      · intro s hdiscreet hstops
        refine ⟨stands_cons_iff.mpr ?_, hlegible s hdiscreet hstops⟩
        rw [htext, ← List.append_assoc, List.take_append_drop,
          leading_fragment_append hfirst hrest hstops hdiscreet, hfound, List.length_take,
          Nat.min_eq_left hinside]
termination_by u.length

/-! ### Statements in fragments -/

/-- The tokens that the text of a token shows by itself. -/
def Token.fragments (t : Token) : List Token :=
  (tokens t.text).toOption.getD []

/-- The first token counts as one with or without a gap in front. -/
def spacedAs (gap : Bool) : List Token → List Token
  | [] => []
  | t :: r => { t with spaced := gap } :: r

/-- What is read of a token whose digits are replaced. -/
def Token.parts (t : Token) : List Token :=
  if t.kind = .word then spacedAs t.spaced t.veiled.fragments else [t.veiled]

theorem mem_spacedAs {gap : Bool} {us : List Token} {u : Token} (h : u ∈ spacedAs gap us) :
    ∃ v ∈ us, u.kind = v.kind ∧ u.text = v.text := by
  cases us with
  | nil => cases h
  | cons v vs =>
      obtain rfl | hlater := List.mem_cons.mp h
      · exact ⟨v, List.mem_cons_self, rfl, rfl⟩
      · exact ⟨u, List.mem_cons_of_mem v hlater, rfl, rfl⟩

theorem legibleBefore_spacedAs {s : List Char} {us : List Token} (h : LegibleBefore s us)
    (gap : Bool) : LegibleBefore s (spacedAs gap us) := by
  cases us with
  | nil => trivial
  | cons u us => exact h

theorem fragments_of_renderRest {t : Token} {us : List Token} (htext : renderRest us = t.text)
    (hlegible : LegibleBefore [] us) : t.fragments = us := by
  have hwhole : Legible us := by
    have happended : Legible (us ++ []) := LegibleBefore.append hlegible trivial
    rwa [List.append_nil] at happended
  rw [Token.fragments, ← htext, hwhole.tokens_renderRest]
  rfl

/-- The fragments of a word whose digits are replaced, in front of a text that goes on with no
name. -/
theorem fragments_of_word {t : Token} {r : List Char} (hstands : t.lexeme.Stands r)
    (hword : t.kind = .word) :
    renderRest t.veiled.fragments = t.veiled.text ∧
      (∀ u ∈ t.veiled.fragments, u.spaced = false ∧
        u.kind ∈ [.word, .variable, .placeholder, .mark]) ∧
      ∀ s, Discreet s → (∀ c ∈ s.head?, continuesName c = false) →
        LegibleBefore s t.veiled.fragments := by
  obtain ⟨hname, -⟩ := name_of_word hstands hword
  have htext : t.veiled.text = replaceDigitRuns t.text := by
    rw [Token.veiled, if_pos (.inl hword)]
  have hfragments : ∀ c ∈ t.veiled.text, Fragment c := by
    rw [htext]
    exact fragments_replaceDigitsAfter hname
  obtain ⟨us, hshows, hkinds, hlegible⟩ := legible_fragments hfragments
  rw [fragments_of_renderRest hshows (hlegible [] discreet_nil (by simp))]
  exact ⟨hshows, hkinds, hlegible⟩

/-- The marks that may make up a list. -/
def listMarks : List Char :=
  ['?', '(', ')', ',']

/-- The first fragment of a word starts as the word does, and so it is no mark of a list. -/
theorem first_fragment {t : Token} {r : List Char} (hstands : t.lexeme.Stands r)
    (hword : t.kind = .word) :
    ∃ u us, t.veiled.fragments = u :: us ∧
      ∀ c ∈ listMarks, u.text ≠ [c] ∧ t.veiled.text ≠ [c] := by
  obtain ⟨hwhole, hkinds, hbefore⟩ := fragments_of_word hstands hword
  obtain ⟨c, w, htext, hstarts, -, -⟩ := text_of_word hstands hword
  obtain ⟨b, v, htext', hdigit⟩ := first_of_stands hstands (.inl hword)
  obtain ⟨rfl, rfl⟩ := List.cons.inj (htext.symm.trans htext')
  have hveiled : t.veiled.text = c :: replaceDigitRuns w := by
    rw [Token.veiled, if_pos (.inl hword), htext, replaceDigitRuns_cons hdigit]
  have hother : c ∉ listMarks := by
    have hnone : ∀ d ∈ listMarks, startsName d = false ∧ d ≠ '$' := forall_mem_of_all (by decide)
    intro hmark
    rcases hstarts with hname | hsign
    · simp [(hnone c hmark).1] at hname
    · exact (hnone c hmark).2 hsign
  cases hfound : t.veiled.fragments with
  | nil =>
      rw [hfound, hveiled] at hwhole
      cases hwhole
  | cons u us =>
      rw [hfound] at hwhole hbefore
      have hstands' := (hbefore [] discreet_nil (by simp)).1
      obtain ⟨d, v, hfirst, -⟩ := hstands'
      have hfirst : u.text = d :: v := hfirst
      have hjoined : u.spaced = false := (hkinds u (hfound ▸ List.mem_cons_self)).1
      obtain rfl : d = c := by
        rw [renderRest_cons, hjoined, if_neg Bool.false_ne_true, hfirst, hveiled] at hwhole
        exact (List.cons.inj hwhole).1
      refine ⟨u, us, rfl, fun e hmark => ⟨?_, ?_⟩⟩
      · rintro hsingle
        rw [hfirst] at hsingle
        exact hother ((List.cons.inj hsingle).1 ▸ hmark)
      · rintro hsingle
        rw [hveiled] at hsingle
        exact hother ((List.cons.inj hsingle).1 ▸ hmark)

theorem renderRest_single (t : Token) :
    renderRest [t] = if t.spaced then ' ' :: t.text else t.text := by
  rw [renderRest_cons]
  exact List.append_nil _

theorem renderRest_spacedAs {gap : Bool} {us : List Token} (hnone : ∀ u ∈ us, u.spaced = false)
    (hsome : us ≠ []) :
    renderRest (spacedAs gap us) = (if gap then ' ' :: renderRest us else renderRest us) := by
  cases us with
  | nil => exact absurd rfl hsome
  | cons u us =>
      have hfirst := hnone u List.mem_cons_self
      rw [spacedAs, renderRest_cons, renderRest_cons, hfirst]
      cases gap <;> rfl

/-- The text of legible tokens whose digits are replaced is divided into their parts. -/
theorem legible_parts {ts : List Token} (hlegible : Legible ts)
    (hshows : ∀ t ∈ ts, t.kind ≠ .text ∧ t.kind ≠ .number) :
    Legible (ts.flatMap Token.parts) ∧
      renderRest (ts.flatMap Token.parts) = renderRest (ts.map Token.veiled) := by
  induction ts with
  | nil => exact ⟨trivial, rfl⟩
  | cons t r ih =>
      obtain ⟨hstands, hrest⟩ := hlegible
      obtain ⟨-, hothers⟩ := List.forall_mem_cons.mp hshows
      obtain ⟨hlater, htext⟩ := ih hrest hothers
      obtain ⟨hdiscreet, hcalm⟩ := discreet_of_legible hrest hothers
      rw [List.flatMap_cons, renderRest_append, List.map_cons, renderRest_cons, htext]
      by_cases hword : t.kind = .word
      · obtain ⟨hwhole, hkinds, hbefore⟩ := fragments_of_word hstands hword
        obtain ⟨-, hstops⟩ := name_of_word hstands hword
        have hstops' := hcalm.stops continuesName_of_inert continuesName_of_isDigit hstops
        obtain ⟨u, us, hfirst, -⟩ := first_fragment hstands hword
        have hsome : t.veiled.fragments ≠ [] := hfirst ▸ List.cons_ne_nil u us
        rw [Token.parts, if_pos hword]
        refine ⟨LegibleBefore.append ?_ hlater, ?_⟩
        · rw [htext]
          exact legibleBefore_spacedAs (hbefore _ hdiscreet hstops') t.spaced
        · rw [renderRest_spacedAs (fun u hmember => (hkinds u hmember).1) hsome, hwhole,
            spaced_veiled]
      · rw [Token.parts, if_neg hword]
        refine ⟨⟨?_, hlater⟩, by rw [renderRest_single]⟩
        show t.veiled.lexeme.Stands (renderRest (r.flatMap Token.parts))
        rw [htext]
        by_cases hquoted : t.kind = .quotedName
        · exact quotedName_veiled hstands hquoted hcalm
        · rw [Token.veiled, if_neg (not_or.mpr ⟨hword, hquoted⟩)]
          exact hstands.calmer rfl hcalm

theorem kind_veiled (t : Token) : t.veiled.kind = t.kind := by
  unfold Token.veiled
  split <;> rfl

/-- The parts that redacted tokens show once their digits are replaced. -/
def partsOf (qs : List Token) : List Token :=
  (qs.map Token.shown).flatMap Token.parts

theorem partsOf_cons (q : Token) (qs : List Token) :
    partsOf (q :: qs) = q.shown.parts ++ partsOf qs :=
  rfl

/-- The redacted text of a statement whose digits are replaced is divided into the parts of its
redacted tokens. -/
theorem tokens_render_pieces_of_digits {o : RedactionOptions} (hdigits : o.replaceDigits = true)
    {s : List Char} {ts : List Token} (h : tokens s = .ok ts) :
    Legible ((unspaced (o.keepingDigits.pieces ts)).map Token.shown) ∧
      (∀ t ∈ (unspaced (o.keepingDigits.pieces ts)).map Token.shown,
        t.kind ≠ .text ∧ t.kind ≠ .number) ∧
      tokens (render (o.pieces ts)) = .ok (partsOf (unspaced (o.keepingDigits.pieces ts))) ∧
      renderRest (partsOf (unspaced (o.keepingDigits.pieces ts))) = render (o.pieces ts) := by
  obtain ⟨ls, -, hreadable, rfl⟩ := tokens_eq_ok_iff.mp h
  have hlegible := (legible_pieces (o := o.keepingDigits) rfl hreadable false).unspaced
  have hshows : ∀ t ∈ unspaced ((o.keepingDigits.pieces (tokensAfter false ls)).map Token.shown),
      t.kind ≠ .text ∧ t.kind ≠ .number := fun t hmember => (kind_of_mem_unspaced rfl hmember).1
  obtain ⟨hparts, htext⟩ := legible_parts hlegible hshows
  rw [← unspaced_map_veiled, ← render_eq, render_veiled_shown,
    ← pieces_of_digits hdigits hreadable, unspaced_map_shown] at htext
  rw [unspaced_map_shown] at hlegible hparts hshows
  have hfound := hparts.tokens_renderRest
  rw [htext] at hfound
  exact ⟨hlegible, hshows, hfound, htext⟩

theorem kind_of_mem_partsOf {qs : List Token} (hlegible : Legible (qs.map Token.shown))
    (hshows : ∀ t ∈ qs.map Token.shown, t.kind ≠ .text ∧ t.kind ≠ .number) :
    ∀ u ∈ partsOf qs, u.kind ≠ .text ∧ u.kind ≠ .number := by
  induction qs with
  | nil => simp [partsOf]
  | cons q qs ih =>
      obtain ⟨hstands, hrest⟩ := hlegible
      obtain ⟨hfirst, hothers⟩ := List.forall_mem_cons.mp hshows
      rw [partsOf_cons, List.forall_mem_append]
      refine ⟨?_, ih hrest hothers⟩
      by_cases hword : q.shown.kind = .word
      · rw [Token.parts, if_pos hword]
        intro u hmember
        obtain ⟨v, hinside, hkind, -⟩ := mem_spacedAs hmember
        obtain ⟨-, hamong⟩ := (fragments_of_word hstands hword).2.1 v hinside
        rw [hkind]
        constructor <;>
        · intro hliteral
          rw [hliteral] at hamong
          simp at hamong
      · rw [Token.parts, if_neg hword]
        intro u hmember
        rw [List.mem_singleton.mp hmember, kind_veiled]
        exact hfirst

/-! ### Lists among parts -/

/-- Redacted tokens show as one part or fall into fragments that are no marks of a list. -/
theorem parts_cases {q : Token} {r : List Char} (hstands : q.shown.lexeme.Stands r) :
    (∃ u us, q.shown.parts = u :: us ∧
      ∀ c ∈ listMarks, u.text ≠ [c] ∧ q.veiled.text ≠ [c]) ∨
      ∃ u, q.shown.parts = [u] ∧ u.text = q.veiled.text := by
  by_cases hword : q.shown.kind = .word
  · left
    obtain ⟨u, us, hfound, hmarks⟩ := first_fragment hstands hword
    rw [text_veiled_shown] at hmarks
    rw [Token.parts, if_pos hword, hfound]
    exact ⟨_, us, rfl, hmarks⟩
  · right
    rw [Token.parts, if_neg hword]
    exact ⟨_, rfl, text_veiled_shown q⟩

theorem placeholderRun_of_ne {t : Token} (h : t.text ≠ placeholderText) (r : List Token) :
    placeholderRun (t :: r) = none := by
  cases r with
  | nil => rfl
  | cons u r => rw [placeholderRun, if_neg h]

theorem placeholderRun_partsOf {qs : List Token} (hlegible : Legible (qs.map Token.shown)) :
    placeholderRun (partsOf qs) = placeholderRun (qs.map Token.veiled) := by
  match qs, hlegible with
  | [], _ => rfl
  | [q], hlegible =>
      have hnone : placeholderRun [q.veiled] = none := rfl
      rw [partsOf_cons, List.map_singleton, hnone]
      obtain ⟨u, us, hfound, hmarks⟩ | ⟨u, hfound, -⟩ := parts_cases hlegible.1
      · rw [hfound]
        exact placeholderRun_of_ne (hmarks '?' (by decide)).1 _
      · rw [hfound]
        rfl
  | q :: p :: qs, hlegible =>
      obtain ⟨hstands, hstands', hrest⟩ := hlegible
      have hlater := placeholderRun_partsOf hrest
      rw [partsOf_cons, List.map_cons, List.map_cons]
      obtain ⟨u, us, hfound, hmarks⟩ | ⟨u, hfound, htext⟩ := parts_cases hstands
      · rw [hfound]
        obtain ⟨hfirst, hwhole⟩ := hmarks '?' (by decide)
        exact (placeholderRun_of_ne hfirst _).trans (placeholderRun_of_ne hwhole _).symm
      rw [hfound, partsOf_cons]
      obtain ⟨v, vs, hfound', hmarks⟩ | ⟨v, hfound', htext'⟩ := parts_cases hstands'
      · obtain ⟨hclose, hclose'⟩ := hmarks ')' (by decide)
        obtain ⟨hcomma, hcomma'⟩ := hmarks ',' (by decide)
        rw [hfound']
        simp [placeholderRun, hclose, hclose', hcomma, hcomma']
      · rw [hfound']
        simp [placeholderRun, htext, htext', hlater]

/-- A list after a token is shortened among the parts as it is among the tokens themselves. -/
theorem surplus_partsOf {qs : List Token} (hlegible : Legible (qs.map Token.shown)) (t : Token) :
    surplus t (partsOf qs) = surplus t (qs.map Token.veiled) := by
  cases qs with
  | nil => rfl
  | cons q qs =>
      obtain ⟨hstands, hrest⟩ := hlegible
      rw [partsOf_cons, List.map_cons]
      obtain ⟨u, us, hfound, hmarks⟩ | ⟨u, hfound, htext⟩ := parts_cases hstands
      · obtain ⟨hopening, hopening'⟩ := hmarks '(' (by decide)
        rw [hfound]
        simp [surplus, hopening, hopening']
      · rw [hfound]
        simp [surplus, htext, placeholderRun_partsOf hrest]

end DeadlockCapture.Sql
