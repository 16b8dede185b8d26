import DeadlockCapture.Proofs.Sql.Legibility

/-!
Normalizing a normal form. A redacted statement is its own redaction: it is divided into the tokens
that were left of the statement, and nothing is left to hide or to shorten in them.
-/

namespace DeadlockCapture.Sql

variable {o : RedactionOptions}

theorem redact_of_mem_pieces {ts : List Token} {p : Token} (h : p ∈ o.pieces ts) :
    ∃ t ∈ ts, o.redact t = p := by
  unfold RedactionOptions.pieces at h
  cases hlists : o.collapseLists with
  | true =>
      simp only [hlists, if_true] at h
      exact List.mem_map.mp ((collapseLists_sublist _).mem h)
  | false =>
      simp only [hlists] at h
      exact List.mem_map.mp h

/-- What is left as it is hides no literal. -/
theorem kind_of_mem_pieces {o : RedactionOptions} (hplain : o.replaceDigits = false)
    {ts : List Token} {p : Token} (h : p ∈ (o.pieces ts).map Token.shown) :
    (p.kind ≠ .text ∧ p.kind ≠ .number) ∧ (p.kind = .word → o.isLiteralWord p = false) := by
  obtain ⟨q, hmember, rfl⟩ := List.mem_map.mp h
  obtain ⟨t, -, rfl⟩ := redact_of_mem_pieces hmember
  by_cases hhidden : (o.redact t).text = placeholderText
  · rw [kind_shown hhidden]
    simp
  · rw [shown_of_ne hhidden]
    rw [redact_eq hplain] at hhidden ⊢
    cases hvalue : o.hides t with
    | true => simp [hvalue] at hhidden
    | false =>
        obtain ⟨kind, text, spaced⟩ := t
        cases kind <;> simp_all [RedactionOptions.hides]

theorem kind_of_mem_unspaced (hplain : o.replaceDigits = false) {ts : List Token} {p : Token}
    (h : p ∈ unspaced ((o.pieces ts).map Token.shown)) :
    (p.kind ≠ .text ∧ p.kind ≠ .number) ∧ (p.kind = .word → o.isLiteralWord p = false) := by
  obtain ⟨q, hinside, hkind, htext⟩ := mem_unspaced h
  have hvalue : o.isLiteralWord p = o.isLiteralWord q := by
    simp only [RedactionOptions.isLiteralWord, Token.spells, htext]
  rw [hkind, hvalue]
  exact kind_of_mem_pieces hplain hinside

/-- Tokens are left alone if nothing in them is to be hidden and no list is to be shortened. -/
theorem pieces_eq_self_iff {ts : List Token} :
    o.pieces ts = ts ↔
      ts.map o.redact = ts ∧ (o.collapseLists = true → collapseLists ts = ts) := by
  unfold RedactionOptions.pieces
  cases o.collapseLists with
  | false => simp
  | true =>
      simp only [if_true, true_imp_iff]
      constructor
      · intro hsame
        have hwhole : collapseLists (ts.map o.redact) = ts.map o.redact :=
          (collapseLists_sublist _).eq_of_length (by rw [hsame, List.length_map])
        rw [hwhole] at hsame
        exact ⟨hsame, hsame ▸ hwhole⟩
      · rintro ⟨hredacted, hcollapsed⟩
        rw [hredacted, hcollapsed]

/-- Nothing is left to redact in redacted tokens as they show. -/
theorem pieces_shown_pieces (hplain : o.replaceDigits = false) (ts : List Token) :
    o.pieces ((o.pieces ts).map Token.shown) = (o.pieces ts).map Token.shown := by
  refine pieces_eq_self_iff.mpr ⟨?_, fun hlists => ?_⟩
  · rw [List.map_map]
    apply List.map_congr_left
    intro p hp
    obtain ⟨t, -, rfl⟩ := redact_of_mem_pieces hp
    exact redact_shown_redact hplain t
  · rw [pieces_map_shown, hlists]
    exact collapseLists_collapseLists _

theorem normalize_render_pieces (hplain : o.replaceDigits = false) {s : List Char} {ts : List Token}
    (h : tokens s = .ok ts) :
    o.normalize (String.ofList (render (o.pieces ts))) =
      .ofPieces o ((o.pieces ts).map Token.shown) := by
  have hfound := tokens_render_pieces hplain h
  rw [normalize_of_tokens (by rw [String.toList_ofList]; exact hfound), pieces_unspaced,
    pieces_shown_pieces hplain, ofPieces_unspaced]

/-- A redacted text is one placeholder, or it is made of the tokens of the statement. -/
theorem redacted_cases (o : RedactionOptions) (x : String) :
    (o.normalize x).redacted = "?" ∨ ∃ ls, textOf ls = statementOf x ∧ Readable ls ∧
      (o.normalize x).redacted.toList = render (o.pieces (tokensAfter false ls)) := by
  cases hfound : tokens (statementOf x) with
  | error e =>
      left
      rw [RedactionOptions.normalize, hfound]
      rfl
  | ok ts =>
      right
      obtain ⟨ls, htext, hreadable, rfl⟩ := tokens_eq_ok_iff.mp hfound
      refine ⟨ls, htext, hreadable, ?_⟩
      rw [RedactionOptions.normalize, hfound]
      exact String.toList_ofList

theorem tokens_placeholder : tokens "?".toList = .ok [⟨.placeholder, placeholderText, false⟩] := by
  have hlegible : Legible [⟨.placeholder, placeholderText, false⟩] :=
    ⟨stands_placeholder rfl rfl _, trivial⟩
  have htext : "?".toList = render [⟨.placeholder, placeholderText, false⟩] := rfl
  rw [htext]
  exact hlegible.tokens_render

theorem normalize_placeholder (o : RedactionOptions) :
    o.normalize "?" = .ofPieces o [⟨.placeholder, placeholderText, false⟩] := by
  have hsame : o.pieces [⟨.placeholder, placeholderText, false⟩] =
      [⟨.placeholder, placeholderText, false⟩] := by
    unfold RedactionOptions.pieces
    cases o.collapseLists with
    | true =>
        have halone : ∀ t : Token, t.text = placeholderText → collapseLists [t] = [t] := by
          intro t hsingle
          rw [collapseLists_cons, surplus_of_single hsingle, collapseLists_nil]
        exact halone _ rfl
    | false => rfl
  rw [normalize_of_tokens tokens_placeholder]
  exact congrArg (Normalized.ofPieces o) hsame

/-- A redacted text is its own redaction and has the fingerprint of the statement. -/
theorem normalize_redacted_text (hplain : o.replaceDigits = false) (x : String) :
    (o.normalize (o.normalize x).redacted).redacted = (o.normalize x).redacted ∧
      (o.normalize (o.normalize x).redacted).unreadable = false ∧
        ((o.normalize x).unreadable = false →
          (o.normalize (o.normalize x).redacted).fingerprint = (o.normalize x).fingerprint) := by
  cases hfound : tokens (statementOf x) with
  | ok ts =>
      have hfirst : o.normalize x = .ofPieces o (o.pieces ts) := by
        rw [RedactionOptions.normalize, hfound]
      have hsecond : o.normalize (o.normalize x).redacted =
          .ofPieces o ((o.pieces ts).map Token.shown) := by
        rw [hfirst]
        exact normalize_render_pieces hplain hfound
      rw [hsecond, hfirst]
      simp only [Normalized.ofPieces, render_map_shown, implies_true, and_self]
  | error e =>
      have hfirst : o.normalize x = .concealed (statementOf x) := by
        rw [RedactionOptions.normalize, hfound]
      rw [hfirst]
      have hsecond : o.normalize (Normalized.concealed (statementOf x)).redacted =
          .ofPieces o [⟨.placeholder, placeholderText, false⟩] := normalize_placeholder o
      rw [hsecond]
      refine ⟨rfl, rfl, ?_⟩
      intro hreadable
      cases hreadable

theorem normalize_twice_by_default :
    ({} : RedactionOptions).replaceDigits = false ∧
      let y := (RedactionOptions.normalize {} "SELECT N'a' FROM t WHERE id IN (1, 2)").redacted
      (RedactionOptions.normalize {} y).redacted = y :=
  ⟨rfl, (normalize_redacted_text rfl _).1⟩

end DeadlockCapture.Sql
