import DeadlockCapture.Proofs.Sql.Standing

/-!
What lies around the tokens of a statement: blanks at its ends do not count.
-/

namespace DeadlockCapture.Sql

open DeadlockCapture.Text

/-- The first token counts as one without a gap in front. -/
def unspaced : List Token → List Token
  | [] => []
  | t :: r => { t with spaced := false } :: r

theorem mem_unspaced {ts : List Token} {t : Token} (h : t ∈ unspaced ts) :
    ∃ u ∈ ts, t.kind = u.kind ∧ t.text = u.text := by
  cases ts with
  | nil => cases h
  | cons u r =>
      obtain rfl | hlater := List.mem_cons.mp h
      · exact ⟨u, List.mem_cons_self, rfl, rfl⟩
      · exact ⟨t, List.mem_cons_of_mem u hlater, rfl, rfl⟩

theorem last_of_closed {c b : Char} {w : List Char} (hlast : w.getLast? = some b)
    (hplain : isBlank b = false) : ∀ b ∈ (c :: w).getLast?, isBlank b = false := by
  rw [List.getLast?_cons, hlast]
  simpa using hplain

/-- A token that is no quotation holds no blank. -/
theorem isBlank_of_token {c : Char} {w r : List Char} {kind : TokenKind}
    (hfound : leading c (w ++ r) = .ok (.token kind, w.length))
    (hbare : kind ≠ .text ∧ kind ≠ .quotedName) : ∀ b ∈ c :: w, isBlank b = false := by
  have hsees := ruleFor_sees c (w ++ r)
  have hfirst : isBlank c = false := by
    rw [← Bool.not_eq_true]
    intro hblank
    rw [leading, ruleFor_of_isBlank hblank] at hfound
    cases hfound
  have hname : ∀ b ∈ blanks, continuesName b = false := fun b hb =>
    continuesName_of_inert (.inl (isBlank_of_mem hb))
  refine List.forall_mem_cons.mpr ⟨hfirst, ?_⟩
  unfold leading at hfound
  cases hrule : ruleFor c (w ++ r) with
  | blank | lineComment => simp [hrule, Rule.read] at hfound
  | blockComment =>
      rw [hrule] at hfound
      cases (read_blockComment_iff.mp hfound).1
  | quotation construct token close skip =>
      rw [hrule] at hfound hsees
      obtain ⟨hsame, -, -⟩ := read_quotation_iff.mp hfound
      obtain rfl : kind = token := by simpa using hsame
      cases skip with
      | zero =>
          exact (hsees.elim (fun htext => hbare.1 htext.1) fun hquoted => hbare.2 hquoted.1).elim
      | succ skip => exact absurd hsees.1 hbare.1
  | hexadecimal =>
      rw [hrule] at hfound hsees
      cases w with
      | nil => simp [Rule.read] at hfound
      | cons d t =>
          have hrun : ((t ++ r).takeWhile isHexDigit).length = t.length := by
            simp [Rule.read] at hfound
            omega
          have hletter : isBlank d = false := by
            rcases hsees.2 with hx | X
            · cases hx; decide
            · cases X; decide
          exact List.forall_mem_cons.mpr
            ⟨hletter, isBlank_of_run (forall_mem_of_all (by decide +kernel)) hrun⟩
  | decimal | money =>
      have hreaches : numberLength (w ++ r) = w.length := by
        simp only [hrule, Rule.read, Except.ok.injEq, Prod.mk.injEq] at hfound
        exact hfound.2
      exact isBlank_of_number hreaches
  | fraction =>
      have hreaches : decimalsLength (w ++ r) = w.length := by
        simp only [hrule, Rule.read, Except.ok.injEq, Prod.mk.injEq] at hfound
        exact hfound.2
      exact isBlank_of_decimals hreaches
  | namedVariable | word =>
      have hrun : ((w ++ r).takeWhile continuesName).length = w.length := by
        simp only [hrule, Rule.read, Except.ok.injEq, Prod.mk.injEq] at hfound
        exact hfound.2
      exact isBlank_of_run hname hrun
  | globalVariable =>
      rw [hrule] at hfound hsees
      cases w with
      | nil => simp [Rule.read] at hfound
      | cons d t =>
          have hrun : ((t ++ r).takeWhile continuesName).length = t.length := by
            simp [Rule.read, nameRun] at hfound
            omega
          have hletter : isBlank d = false := by
            cases hsees.2
            decide
          exact List.forall_mem_cons.mpr ⟨hletter, isBlank_of_run hname hrun⟩
  | placeholder | mark =>
      have hnone : w = [] := by
        simp only [hrule, Rule.read, Except.ok.injEq, Prod.mk.injEq] at hfound
        exact List.eq_nil_of_length_eq_zero hfound.2.symm
      simp [hnone]

/-- Only a blank and a comment to the end of its line can end in a blank. -/
theorem isBlank_last {c : Char} {w r : List Char} {kind : LexemeKind}
    (hfound : leading c (w ++ r) = .ok (kind, w.length))
    (hclosed : ruleFor c (w ++ r) ≠ .blank ∧ ruleFor c (w ++ r) ≠ .lineComment) :
    ∀ b ∈ (c :: w).getLast?, isBlank b = false := by
  have hsees := ruleFor_sees c (w ++ r)
  have hwhole := hfound
  unfold leading at hfound
  cases hrule : ruleFor c (w ++ r) with
  | blank => exact absurd hrule hclosed.1
  | lineComment => exact absurd hrule hclosed.2
  | blockComment =>
      rw [hrule] at hfound hsees
      obtain ⟨-, hsome, hlength⟩ := read_blockComment_iff.mp hfound
      have hwhole := commentLength_append hlength []
      rw [List.append_nil] at hwhole
      have hlast := getLast_of_comment hwhole
      cases w with
      | nil => cases hsome
      | cons d t =>
          refine last_of_closed (b := '/') ?_ (by decide)
          rw [List.tail_cons] at hlast
          rw [List.getLast?_cons, hlast]
          rfl
  | quotation construct token close skip =>
      rw [hrule] at hfound hsees
      obtain ⟨-, -, hlength⟩ := read_quotation_iff.mp hfound
      have hlast := getLast_of_quoted (quotedLength_append_iff.mp hlength).1
      have hplain : isBlank close = false := by
        have hclosing : ∀ c ∈ ['\x27', ']', '"', '\x60'], isBlank c = false :=
          forall_mem_of_all (by decide)
        exact hclosing close hsees.close
      refine last_of_closed ?_ hplain
      rw [← List.take_append_drop skip w, List.getLast?_append, hlast]
      rfl
  | _ =>
      -- Every other rule reads a token that is no quotation.
      have htoken := congrArg Prod.fst (Except.ok.inj (hrule ▸ hfound))
      simp only at htoken
      rw [← htoken] at hwhole
      exact fun b hb => isBlank_of_token hwhole (by decide) b (List.mem_of_getLast? hb)

/-! ### Blanks at the ends -/

theorem tokensAfter_gap {l : Lexeme} (hkind : l.kind = .blank ∨ l.kind = .comment) (gap : Bool)
    (ls : List Lexeme) : tokensAfter gap (l :: ls) = tokensAfter true ls := by
  obtain ⟨kind', text⟩ := l
  rcases hkind with rfl | rfl <;> rfl

theorem tokensAfter_congr (l : Lexeme) {ls ms : List Lexeme}
    (hsame : ∀ gap, tokensAfter gap ls = tokensAfter gap ms) (gap : Bool) :
    tokensAfter gap (l :: ls) = tokensAfter gap (l :: ms) := by
  obtain ⟨kind, text⟩ := l
  cases kind with
  | blank => exact hsame true
  | comment => exact hsame true
  | token kind => exact congrArg (_ :: ·) (hsame false)

theorem unspaced_tokensAfter (ls : List Lexeme) :
    unspaced (tokensAfter true ls) = unspaced (tokensAfter false ls) := by
  cases ls with
  | nil => rfl
  | cons l ls =>
      obtain ⟨kind, text⟩ := l
      cases kind <;> rfl

theorem Lexeme.Stands.of_blank {l : Lexeme} {c : Char} {w r : List Char} (h : l.Stands r)
    (htext : l.text = c :: w) (hblank : isBlank c = true) : l = ⟨.blank, [c]⟩ := by
  obtain ⟨kind, text'⟩ := l
  obtain ⟨d, v, hsame, hfound⟩ := h
  obtain rfl : text' = c :: w := htext
  obtain ⟨rfl, rfl⟩ := List.cons.inj hsame
  rw [leading, ruleFor_of_isBlank hblank] at hfound
  obtain ⟨rfl, hlength⟩ : LexemeKind.blank = kind ∧ w = [] := by
    simpa [Rule.read, eq_comm] using hfound
  rw [hlength]

theorem tokensAfter_of_blank {ls : List Lexeme} (hreadable : Readable ls)
    (hblank : ∀ c ∈ textOf ls, isBlank c = true) (gap : Bool) : tokensAfter gap ls = [] := by
  induction ls generalizing gap with
  | nil => rfl
  | cons l ls ih =>
      obtain ⟨hstands, hreadable⟩ := hreadable
      obtain ⟨c, w, htext, -⟩ := id hstands
      rw [textOf_cons, htext] at hblank
      rw [hstands.of_blank htext (hblank c List.mem_cons_self)]
      exact ih hreadable (fun d hd => hblank d (List.mem_append_right _ hd)) true

/-- A comment that ends its line may lose the blanks at its end. -/
theorem stands_of_line {s t : List Char} {l : Lexeme} {r : List Char} (h : l.Stands r)
    (htext : l.text = s ++ t) (hsome : s ≠ []) (hblank : ∀ c ∈ t, isBlank c = true)
    (hmore : t ≠ []) :
    l.kind = .comment ∧ Lexeme.Stands ⟨.comment, s⟩ [] := by
  obtain ⟨c, w, hsame, hfound⟩ := h
  have hsees := ruleFor_sees c (w ++ r)
  obtain ⟨d, s, rfl⟩ := List.exists_cons_of_ne_nil hsome
  obtain ⟨rfl, rfl⟩ : d = c ∧ s ++ t = w := by simpa [hsame] using htext.symm
  have hends : ruleFor d (s ++ t ++ r) = .blank ∨ ruleFor d (s ++ t ++ r) = .lineComment := by
    apply Decidable.byContradiction
    intro hclosed
    obtain ⟨b, hb⟩ : ∃ b, t.getLast? = .some b := by
      cases hlast : t.getLast? with
      | none => exact absurd (List.getLast?_eq_none_iff.mp hlast) hmore
      | some b => exact ⟨b, rfl⟩
    have hplain := isBlank_last hfound (not_or.mp hclosed) b
      (by simp [List.getLast?_cons, List.getLast?_append, hb])
    exact absurd (hblank b (List.mem_of_getLast? hb)) (by simp [hplain])
  rcases hends with hrule | hrule
  · have hlength : (s ++ t).length = 0 := by
      rw [leading, hrule] at hfound
      simp only [Rule.read, Except.ok.injEq, Prod.mk.injEq] at hfound
      exact hfound.2.symm
    exact absurd (List.append_eq_nil_iff.mp (List.eq_nil_of_length_eq_zero hlength)).2 hmore
  · rw [hrule] at hsees
    obtain ⟨rfl, hdash⟩ := hsees
    obtain ⟨hkind, hrun⟩ : LexemeKind.comment = l.kind ∧
        ((s ++ t ++ r).takeWhile (· ≠ '\n')).length = (s ++ t).length := by
      rw [leading, hrule] at hfound
      simpa only [Rule.read, Except.ok.injEq, Prod.mk.injEq] using hfound
    have hinside := (run_eq_length_iff.mp hrun).1
    refine ⟨hkind.symm, '-', s, rfl, leading_comment_iff.mpr (.inl ⟨rfl, ?_, ?_⟩)⟩
    · cases s with
      | cons e s => exact hdash
      | nil =>
          cases t with
          | nil => exact absurd rfl hmore
          | cons e t =>
              cases hdash
              exact absurd (hblank '-' List.mem_cons_self) (by decide)
    · exact run_eq_length_iff.mpr
        ⟨fun c hc => hinside c (List.mem_append_left t hc), by simp⟩

theorem Readable.without_back {ls : List Lexeme} (hreadable : Readable ls) {s back : List Char}
    (htext : textOf ls = s ++ back) (hblank : ∀ c ∈ back, isBlank c = true) :
    ∃ ms, textOf ms = s ∧ Readable ms ∧ ∀ gap, tokensAfter gap ms = tokensAfter gap ls := by
  induction ls generalizing s with
  | nil =>
      obtain ⟨rfl, -⟩ := List.append_eq_nil_iff.mp htext.symm
      exact ⟨[], rfl, trivial, fun _ => rfl⟩
  | cons l ls ih =>
      by_cases hempty : s = []
      · subst hempty
        refine ⟨[], rfl, trivial, fun gap => (tokensAfter_of_blank hreadable ?_ gap).symm⟩
        rw [htext]
        exact hblank
      · obtain ⟨hstands, hreadable⟩ := hreadable
        have hwhole : ∀ t, s = l.text ++ t → textOf ls = t ++ back → ∃ ms, textOf ms = s ∧
            Readable ms ∧ ∀ gap, tokensAfter gap ms = tokensAfter gap (l :: ls) := by
          intro t hs hrest
          obtain ⟨ms, hms, hread, hsame⟩ := ih hreadable hrest
          refine ⟨l :: ms, ?_, ⟨?_, hread⟩, tokensAfter_congr l hsame⟩
          · rw [textOf_cons, hms, hs]
          · rw [hms]
            rw [hrest] at hstands
            have hcalm : Calmer (t ++ back) (t ++ []) := (Calmer.of_inert (by simp)).append t
            rw [List.append_nil] at hcalm
            apply hstands.before hcalm
            intro hline c hc
            cases t with
            | nil => cases hc
            | cons d t => exact hline c hc
        rw [textOf_cons] at htext
        rcases List.append_eq_append_iff.mp htext with ⟨t, hs, hrest⟩ | ⟨t, hl, hrest⟩
        · exact hwhole t hs hrest
        · by_cases hmore : t = []
          · exact hwhole [] (by simpa [hmore] using hl.symm) (by simpa [hmore] using hrest.symm)
          · have hblanks : (∀ c ∈ t, isBlank c = true) ∧ ∀ c ∈ textOf ls, isBlank c = true := by
              rw [hrest] at hblank
              exact List.forall_mem_append.mp hblank
            obtain ⟨hkind, hshort⟩ := stands_of_line hstands hl hempty hblanks.1 hmore
            refine ⟨[⟨.comment, s⟩], by simp [textOf], ⟨hshort, trivial⟩, fun gap => ?_⟩
            rw [tokensAfter_gap (.inr hkind), tokensAfter_of_blank hreadable hblanks.2]
            rfl

/-- Without the blanks in front a statement has the same tokens, up to the gap in front. -/
theorem Readable.without_front {ls : List Lexeme} (hreadable : Readable ls) {front s : List Char}
    (htext : textOf ls = front ++ s) (hblank : ∀ c ∈ front, isBlank c = true) :
    ∃ ms, textOf ms = s ∧ Readable ms ∧
      unspaced (tokensAfter false ms) = unspaced (tokensAfter false ls) := by
  induction front generalizing ls with
  | nil => exact ⟨ls, htext, hreadable, rfl⟩
  | cons c front ih =>
      cases ls with
      | nil => cases htext
      | cons l ls =>
          obtain ⟨hstands, hreadable⟩ := hreadable
          obtain ⟨d, w, hfirst, -⟩ := id hstands
          rw [textOf_cons, hfirst] at htext
          obtain ⟨rfl, hrest⟩ := List.cons.inj htext
          have halone := hstands.of_blank hfirst (hblank d List.mem_cons_self)
          obtain rfl : w = [] := by simpa [halone] using hfirst.symm
          obtain ⟨ms, hms, hread, hsame⟩ :=
            ih hreadable hrest fun c hc => hblank c (List.mem_cons_of_mem _ hc)
          refine ⟨ms, hms, hread, hsame.trans ?_⟩
          rw [halone, ← unspaced_tokensAfter]
          rfl

theorem tokens_eq_ok_iff {s : List Char} {ts : List Token} :
    tokens s = .ok ts ↔ ∃ ls, textOf ls = s ∧ Readable ls ∧ tokensAfter false ls = ts := by
  simp only [tokens, map_eq_ok_iff, lexemes_eq_ok_iff, and_assoc]

/-- Trimming leaves the tokens of a statement as they are, up to the gap in front. -/
theorem tokens_trim {s : List Char} {ts : List Token} (h : tokens s = .ok ts) :
    ∃ us, tokens (trim s) = .ok us ∧ unspaced us = unspaced ts := by
  obtain ⟨ls, htext, hreadable, rfl⟩ := tokens_eq_ok_iff.mp h
  obtain ⟨front, back, hsplit, hfront, hback⟩ := trim_split s
  obtain ⟨ms, hmtext, hmread, hmsame⟩ := hreadable.without_back (htext.trans hsplit) hback
  obtain ⟨ns, hntext, hnread, hnsame⟩ := hmread.without_front hmtext hfront
  refine ⟨_, tokens_eq_ok_iff.mpr ⟨ns, hntext, hnread, rfl⟩, ?_⟩
  rw [hnsame, hmsame]

end DeadlockCapture.Sql
