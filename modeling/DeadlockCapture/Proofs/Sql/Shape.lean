import DeadlockCapture.Proofs.Sql.Idempotence

/-!
What a redacted text is made of: no blanks stand at its ends, and its characters are those of the
statement, placeholders and spaces.
-/

namespace DeadlockCapture.Sql

open DeadlockCapture.Text

/-- A text that neither starts nor ends with a blank. -/
structure Solid (s : List Char) : Prop where
  filled : s ≠ []
  first : ∀ c ∈ s.head?, isBlank c = false
  last : ∀ c ∈ s.getLast?, isBlank c = false

theorem solid_single {c : Char} (h : isBlank c = false) : Solid [c] := by
  refine ⟨List.cons_ne_nil c [], ?_, ?_⟩ <;>
  · rintro d ⟨⟩
    exact h

/-! ### Tokens -/

theorem mem_of_mem_tokensAfter {gap : Bool} {ls : List Lexeme} {t : Token}
    (h : t ∈ tokensAfter gap ls) : t.lexeme ∈ ls := by
  induction ls generalizing gap with
  | nil => cases h
  | cons l ls ih =>
      obtain ⟨kind, text⟩ := l
      cases kind with
      | blank => exact List.mem_cons_of_mem _ (ih h)
      | comment => exact List.mem_cons_of_mem _ (ih h)
      | token kind =>
          obtain hsame | hlater := List.mem_cons.mp h
          · rw [hsame]
            exact List.mem_cons_self
          · exact List.mem_cons_of_mem _ (ih hlater)

theorem Readable.stands_of_mem {ls : List Lexeme} (hreadable : Readable ls) {l : Lexeme}
    (h : l ∈ ls) : ∃ r, l.Stands r := by
  induction ls with
  | nil => cases h
  | cons m ls ih =>
      obtain rfl | hlater := List.mem_cons.mp h
      · exact ⟨_, hreadable.1⟩
      · exact ih hreadable.2 hlater

theorem solid_of_stands {t : Token} {r : List Char} (h : t.lexeme.Stands r) : Solid t.text := by
  obtain ⟨c, w, htext, hfound⟩ := h
  have htext : t.text = c :: w := htext
  have hnoBlank : ruleFor c (w ++ r) ≠ .blank := by
    intro hrule
    rw [leading, hrule] at hfound
    cases hfound
  have hnoComment : ruleFor c (w ++ r) ≠ .lineComment := by
    intro hrule
    rw [leading, hrule] at hfound
    cases hfound
  rw [htext]
  refine ⟨List.cons_ne_nil c w, ?_, isBlank_last hfound ⟨hnoBlank, hnoComment⟩⟩
  rintro d ⟨⟩
  cases hblank : isBlank c with
  | false => rfl
  | true => exact absurd (ruleFor_of_isBlank hblank _) hnoBlank

theorem Legible.solid {ts : List Token} (h : Legible ts) : ∀ t ∈ ts, Solid t.text := by
  induction ts with
  | nil => simp
  | cons t r ih => exact List.forall_mem_cons.mpr ⟨solid_of_stands h.1, ih h.2⟩

/-! ### Redacted tokens -/

theorem mem_replaceDigitsAfter {inRun : Bool} {s : List Char} {c : Char}
    (h : c ∈ replaceDigitsAfter inRun s) : c = '?' ∨ c ∈ s := by
  fun_induction replaceDigitsAfter inRun s with
  | case1 => cases h
  | case2 d r hdigit ih => exact (ih h).imp id (List.mem_cons_of_mem d)
  | case3 inRun d r hdigit hrun ih =>
      obtain hsame | hlater := List.mem_cons.mp h
      · exact .inl hsame
      · exact (ih hlater).imp id (List.mem_cons_of_mem d)
  | case4 inRun d r hother ih =>
      obtain hsame | hlater := List.mem_cons.mp h
      · exact .inr (hsame ▸ List.mem_cons_self)
      · exact (ih hlater).imp id (List.mem_cons_of_mem d)

theorem replaceDigitsAfter_ne_nil {s : List Char} (hsome : s ≠ []) :
    replaceDigitsAfter false s ≠ [] := by
  cases s with
  | nil => exact absurd rfl hsome
  | cons c s =>
      rw [replaceDigitsAfter]
      split <;> simp

theorem mem_getLast?_cons {c d : Char} {r : List Char} (h : c ∈ r.getLast?) :
    c ∈ (d :: r).getLast? := by
  rw [List.getLast?_cons, h]
  rfl

theorem last_of_replaceDigitsAfter {inRun : Bool} {s : List Char} :
    ∀ c ∈ (replaceDigitsAfter inRun s).getLast?, c = '?' ∨ c ∈ s.getLast? := by
  fun_induction replaceDigitsAfter inRun s with
  | case1 =>
      intro c hmember
      cases hmember
  | case2 d r hdigit ih => exact fun c hmember => (ih c hmember).imp id mem_getLast?_cons
  | case3 inRun d r hdigit hrun ih =>
      intro c hmember
      rw [List.getLast?_cons] at hmember
      cases hfinal : (replaceDigitsAfter true r).getLast? with
      | none =>
          rw [hfinal] at hmember
          cases hmember
          exact .inl rfl
      | some e =>
          rw [hfinal] at hmember
          cases hmember
          exact (ih e hfinal).imp id mem_getLast?_cons
  | case4 inRun d r hother ih =>
      intro c hmember
      rw [List.getLast?_cons] at hmember
      cases hfinal : (replaceDigitsAfter false r).getLast? with
      | none =>
          rw [hfinal] at hmember
          cases hmember
          have hnone : r = [] := Decidable.byContradiction fun hsome =>
            replaceDigitsAfter_ne_nil hsome (List.getLast?_eq_none_iff.mp hfinal)
          rw [hnone]
          exact .inr rfl
      | some e =>
          rw [hfinal] at hmember
          cases hmember
          exact (ih e hfinal).imp id mem_getLast?_cons

theorem solid_replaceDigitRuns {s : List Char} (h : Solid s) : Solid (replaceDigitRuns s) := by
  refine ⟨replaceDigitsAfter_ne_nil h.filled, ?_, ?_⟩
  · cases s with
    | nil => exact absurd rfl h.filled
    | cons c s =>
        rw [replaceDigitRuns, replaceDigitsAfter]
        split
        · rintro d ⟨⟩
          decide
        · exact h.first
  · intro c hmember
    obtain rfl | hinside := last_of_replaceDigitsAfter c hmember
    · decide
    · exact h.last c hinside

theorem solid_redact {o : RedactionOptions} {t : Token} (h : Solid t.text) :
    Solid (o.redact t).text := by
  have hplaceholder : Solid placeholderText := solid_single (by decide)
  have hdigits := solid_replaceDigitRuns h
  obtain ⟨kind, text, spaced⟩ := t
  simp only [RedactionOptions.redact, RedactionOptions.redactedText]
  cases kind with
  | text => exact hplaceholder
  | number => exact hplaceholder
  | word =>
      simp only
      split
      · exact hplaceholder
      · split
        · exact hdigits
        · exact h
  | quotedName =>
      simp only
      split
      · exact hdigits
      · exact h
  | «variable» => exact h
  | placeholder => exact h
  | mark => exact h

theorem mem_redact {o : RedactionOptions} {t : Token} {c : Char} (h : c ∈ (o.redact t).text) :
    c = '?' ∨ c ∈ t.text := by
  have hplaceholder : c ∈ placeholderText → c = '?' ∨ c ∈ t.text :=
    fun hmember => .inl (List.mem_singleton.mp hmember)
  have hdigits : c ∈ replaceDigitRuns t.text → c = '?' ∨ c ∈ t.text := mem_replaceDigitsAfter
  obtain ⟨kind, text, spaced⟩ := t
  simp only [RedactionOptions.redact, RedactionOptions.redactedText] at h
  cases kind with
  | text => exact hplaceholder h
  | number => exact hplaceholder h
  | word =>
      simp only at h
      split at h
      · exact hplaceholder h
      · split at h
        · exact hdigits h
        · exact .inr h
  | quotedName =>
      simp only at h
      split at h
      · exact hdigits h
      · exact .inr h
  | «variable» => exact .inr h
  | placeholder => exact .inr h
  | mark => exact .inr h

/-! ### Redacted statements -/

theorem last_renderRest (ts : List Token) (hsolid : ∀ t ∈ ts, Solid t.text) :
    ∀ c ∈ (renderRest ts).getLast?, isBlank c = false := by
  induction ts with
  | nil =>
      intro c hmember
      cases hmember
  | cons t ts ih =>
      obtain ⟨hfirst, hrest⟩ := List.forall_mem_cons.mp hsolid
      intro c hmember
      rw [renderRest_cons, List.getLast?_append] at hmember
      cases hfinal : (renderRest ts).getLast? with
      | some e =>
          rw [hfinal] at hmember
          cases hmember
          exact ih hrest c hfinal
      | none =>
          rw [hfinal] at hmember
          apply hfirst.last c
          cases hlast : t.text.getLast? with
          | none => exact absurd (List.getLast?_eq_none_iff.mp hlast) hfirst.filled
          | some e =>
              cases hspaced : t.spaced <;> simpa [hspaced, List.getLast?_cons, hlast] using hmember

theorem trim_render {ts : List Token} (hsolid : ∀ t ∈ ts, Solid t.text) :
    trim (render ts) = render ts := by
  cases ts with
  | nil => rfl
  | cons t ts =>
      have hfirst := hsolid t List.mem_cons_self
      have hlast := last_renderRest (unspaced (t :: ts)) <| by
        rw [unspaced]
        exact List.forall_mem_cons.mpr
          ⟨hfirst, fun u hlater => hsolid u (List.mem_cons_of_mem t hlater)⟩
      rw [← render_eq] at hlast
      refine trim_of_plain ?_ hlast
      rw [render]
      cases htext : t.text with
      | nil => exact absurd htext hfirst.filled
      | cons c s =>
          rw [htext] at hfirst
          exact hfirst.first

theorem mem_renderRest {ts : List Token} {c : Char} (h : c ∈ renderRest ts) :
    c = ' ' ∨ ∃ t ∈ ts, c ∈ t.text := by
  obtain ⟨t, hinside, hmember⟩ := List.mem_flatMap.mp h
  split at hmember
  · obtain hsame | hlater := List.mem_cons.mp hmember
    · exact .inl hsame
    · exact .inr ⟨t, hinside, hlater⟩
  · exact .inr ⟨t, hinside, hmember⟩

theorem mem_render {ts : List Token} {c : Char} (h : c ∈ render ts) :
    c = ' ' ∨ ∃ t ∈ ts, c ∈ t.text := by
  cases ts with
  | nil => cases h
  | cons t ts =>
      obtain hfirst | hlater := List.mem_append.mp h
      · exact .inr ⟨t, List.mem_cons_self, hfirst⟩
      · exact (mem_renderRest hlater).imp id fun ⟨u, hinside, hmember⟩ =>
          ⟨u, List.mem_cons_of_mem t hinside, hmember⟩

theorem trim_redacted (o : RedactionOptions) (x : String) :
    trim (o.normalize x).redacted.toList = (o.normalize x).redacted.toList := by
  obtain hconcealed | ⟨ls, -, hreadable, hrendered⟩ := redacted_cases o x
  · have htext : "?".toList = ['?'] := rfl
    rw [hconcealed, htext]
    refine trim_of_plain ?_ ?_ <;>
    · rintro c ⟨⟩
      rfl
  · rw [hrendered]
    apply trim_render
    intro p hmember
    obtain ⟨t, hinside, rfl⟩ := redact_of_mem_pieces hmember
    obtain ⟨r, hstands⟩ := hreadable.stands_of_mem (mem_of_mem_tokensAfter hinside)
    exact solid_redact (solid_of_stands hstands)

/-- The characters of a redacted text are those of the statement, placeholders and spaces. -/
theorem mem_redacted {o : RedactionOptions} {x : String} {c : Char}
    (h : c ∈ (o.normalize x).redacted.toList) : c = '?' ∨ c = ' ' ∨ c ∈ x.toList := by
  obtain hconcealed | ⟨ls, htext, -, hrendered⟩ := redacted_cases o x
  · rw [hconcealed] at h
    exact .inl (List.mem_singleton.mp h)
  · rw [hrendered] at h
    obtain hspace | ⟨p, hmember, hinside⟩ := mem_render h
    · exact .inr (.inl hspace)
    · obtain ⟨t, htoken, rfl⟩ := redact_of_mem_pieces hmember
      obtain hplaceholder | hkept := mem_redact hinside
      · exact .inl hplaceholder
      · refine .inr (.inr (mem_of_mem_trim (s := x.toList) ?_))
        rw [← statementOf, ← htext]
        exact List.mem_flatMap.mpr ⟨t.lexeme, mem_of_mem_tokensAfter htoken, hkept⟩

end DeadlockCapture.Sql
