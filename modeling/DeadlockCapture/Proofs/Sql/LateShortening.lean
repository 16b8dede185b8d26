import DeadlockCapture.Proofs.Sql.Metadata
import DeadlockCapture.Proofs.Sql.Settling

/-!
Lists shortened when the literals are hidden, and lists shortened afterwards, in the redacted text.
The two texts are the same. No verb and no table is lost with the items that are left out: they are
placeholders and commas, and the name of a table ends before a list.
-/

namespace DeadlockCapture.Sql

open DeadlockCapture.Text

variable {o : RedactionOptions}

/-! ### What is left out -/

theorem isIn_of_surplus {t : Token} {r : List Token} {n : Nat} (h : surplus t r = some n) :
    t.IsIn := by
  unfold surplus at h
  split at h
  · rename_i hlist
    exact ⟨hlist.1, hlist.2.1⟩
  · cases h

theorem marks_of_placeholderRun {ts : List Token} {m : Nat} (h : placeholderRun ts = some m) :
    ∀ u ∈ ts.take m, u.text = placeholderText ∨ u.text = [','] := by
  fun_induction placeholderRun ts generalizing m with
  | case1 item next r hfirst hclosing =>
      cases h
      exact List.forall_mem_singleton.mpr (.inl hfirst)
  | case2 item next r hfirst hclosing hcomma ih =>
      obtain ⟨n, hfound, rfl⟩ := Option.map_eq_some_iff.mp h
      rw [List.take_succ_cons, List.take_succ_cons, List.forall_mem_cons, List.forall_mem_cons]
      exact ⟨.inl hfirst, .inr hcomma, ih hfound⟩
  | case3 => cases h
  | case4 => cases h
  | case5 => cases h

/-- Between the word IN and the end of its list stand single marks only. -/
theorem marks_of_surplus {t : Token} {r : List Token} {n : Nat} (h : surplus t r = some n) :
    ∀ u ∈ r.take (2 + n), ∃ c ∈ listMarks, u.text = [c] := by
  obtain ⟨opening, item, inner, rfl, -⟩ := surplus_some h
  have hfirst := opening_of_surplus h
  unfold surplus at h
  split at h
  · obtain ⟨m, hrun, rfl⟩ := Option.map_eq_some_iff.mp h
    obtain ⟨hpos, -⟩ := placeholderRun_some hrun
    rw [show 2 + (m - 1) = m + 1 by omega, List.take_succ_cons, List.forall_mem_cons]
    refine ⟨⟨'(', by decide, hfirst⟩, fun u hmember => ?_⟩
    obtain hmark | hmark := marks_of_placeholderRun hrun u hmember
    · exact ⟨'?', by decide, hmark⟩
    · exact ⟨',', by decide, hmark⟩
  · cases h

theorem upper_of_single {t : Token} {c : Char} (h : t.text = [c]) :
    t.upper = String.ofList [c.toUpper] := by
  rw [Token.upper, h]
  rfl

/-! ### Verbs -/

theorem verb?_of_mark {t : Token} {c : Char} (hmark : c ∈ listMarks) (htext : t.text = [c]) :
    verb? t = none := by
  have hnone : ∀ c ∈ listMarks, verbs.contains (String.ofList [c.toUpper]) = false :=
    forall_mem_of_all (by decide)
  simp only [verb?, upper_of_single htext, hnone c hmark, Bool.false_eq_true, and_false, if_false]

theorem verbsOf_append (us ws : List Token) : verbsOf (us ++ ws) = verbsOf us ++ verbsOf ws :=
  List.filterMap_append

theorem verbsOf_of_marks {us : List Token} (h : ∀ u ∈ us, ∃ c ∈ listMarks, u.text = [c]) :
    verbsOf us = [] := by
  refine List.filterMap_eq_nil_iff.mpr fun u hmember => ?_
  obtain ⟨c, hmark, htext⟩ := h u hmember
  exact verb?_of_mark hmark htext

theorem verbsOf_collapseLists (ts : List Token) : verbsOf (collapseLists ts) = verbsOf ts := by
  fun_induction collapseLists ts with
  | case1 => rfl
  | case2 t r n hfound ih =>
      have hmarks := marks_of_surplus hfound
      have hkept : verbsOf (r.take 2) = [] :=
        verbsOf_of_marks fun u hmember => hmarks u (List.take_subset_take_left r (by omega) hmember)
      have hwhole : verbsOf r = verbsOf (r.drop (2 + n)) := by
        have hsplit := verbsOf_append (r.take (2 + n)) (r.drop (2 + n))
        rwa [List.take_append_drop, verbsOf_of_marks hmarks, List.nil_append] at hsplit
      rw [← List.singleton_append, verbsOf_append, verbsOf_append, hkept, ih, List.nil_append,
        ← hwhole, ← verbsOf_append]
      rfl
  | case3 t r hfound ih =>
      rw [← List.singleton_append, verbsOf_append, ih, ← verbsOf_append]
      rfl

/-! ### Tables -/

theorem not_introducesTable_of_mark {t : Token} {c : Char} (hmark : c ∈ listMarks)
    (htext : t.text = [c]) : ¬ t.IntroducesTable := by
  have hnone : ∀ c ∈ listMarks, tableIntroducers.contains (String.ofList [c.toUpper]) = false :=
    forall_mem_of_all (by decide)
  rintro ⟨-, hintroduces⟩
  rw [upper_of_single htext, hnone c hmark] at hintroduces
  cases hintroduces

theorem not_introducesTable_of_isIn {t : Token} (h : t.IsIn) : ¬ t.IntroducesTable := by
  have hupper : t.upper = "IN" := by
    have hspells : t.text.map Char.toUpper = "IN".toList := by simpa [Token.spells] using h.2
    rw [Token.upper, hspells]
    rfl
  have hnone : tableIntroducers.contains "IN" = false := by decide
  rintro ⟨-, hintroduces⟩
  rw [hupper, hnone] at hintroduces
  cases hintroduces

/-- Tokens that introduce no table are passed over. -/
theorem tablesOf_append {us : List Token} (h : ∀ u ∈ us, ¬ u.IntroducesTable) (ws : List Token) :
    tablesOf (us ++ ws) = tablesOf ws := by
  induction us with
  | nil => rfl
  | cons u us ih =>
      obtain ⟨hfirst, hrest⟩ := List.forall_mem_cons.mp h
      rw [List.cons_append, tablesOf_cons, if_neg hfirst, ih hrest]

theorem collapseLists_second (t u : Token) (r : List Token) :
    ∃ q, collapseLists (t :: u :: r) = t :: u :: q := by
  rw [collapseLists_cons]
  cases surplus t (u :: r) with
  | some n => exact ⟨_, rfl⟩
  | none => exact ⟨_, congrArg (t :: ·) (collapseLists_cons u r)⟩

theorem dottedParts_of_opening {t : Token} (h : t.text = ['(']) (r : List Token) :
    dottedParts (t :: r) = [] := by
  cases r with
  | nil => rfl
  | cons u r => simp [dottedParts, h]

theorem dottedParts_after_shortened {t : Token} {r : List Token} {n : Nat}
    (h : surplus t r = some n) (ws : List Token) :
    dottedParts (r.take 2 ++ ws) = [] ∧ dottedParts r = [] := by
  obtain ⟨opening, item, inner, rfl, -⟩ := surplus_some h
  have hfirst := opening_of_surplus h
  exact ⟨dottedParts_of_opening hfirst _, dottedParts_of_opening hfirst _⟩

theorem dottedParts_collapseLists (ts : List Token) :
    dottedParts (collapseLists ts) = dottedParts ts := by
  fun_induction dottedParts ts with
  | case1 dot part r hjoined ih =>
      rw [collapseLists_cons, surplus_of_single hjoined.1, collapseLists_cons]
      cases hfound : surplus part r with
      | some n =>
          obtain ⟨hshortened, hwhole⟩ :=
            dottedParts_after_shortened hfound (collapseLists (r.drop (2 + n)))
          simp only [dottedParts, if_pos hjoined, hshortened, hwhole]
      | none => simp only [dottedParts, if_pos hjoined, ih]
  | case2 dot part r hapart =>
      obtain ⟨q, hsame⟩ := collapseLists_second dot part r
      rw [hsame, dottedParts, if_neg hapart]
  | case3 ts hshort =>
      obtain _ | ⟨t, _ | ⟨u, r⟩⟩ := ts
      · rw [collapseLists_nil]
        rfl
      · rw [collapseLists_cons]
        simp [surplus, collapseLists_nil, dottedParts]
      · exact absurd rfl (hshort t u r)

theorem tableName?_collapseLists (ts : List Token) :
    tableName? (collapseLists ts) = tableName? ts := by
  cases ts with
  | nil => rw [collapseLists_nil]
  | cons first r =>
      rw [collapseLists_cons]
      cases hfound : surplus first r with
      | some n =>
          obtain ⟨hshortened, hwhole⟩ :=
            dottedParts_after_shortened hfound (collapseLists (r.drop (2 + n)))
          simp only [tableName?, hshortened, hwhole]
      | none => simp only [tableName?, dottedParts_collapseLists]

theorem tablesOf_collapseLists (ts : List Token) : tablesOf (collapseLists ts) = tablesOf ts := by
  fun_induction collapseLists ts with
  | case1 => rfl
  | case2 t r n hfound ih =>
      have hmarks : ∀ u ∈ r.take (2 + n), ¬ u.IntroducesTable := by
        intro u hmember
        obtain ⟨c, hmark, htext⟩ := marks_of_surplus hfound u hmember
        exact not_introducesTable_of_mark hmark htext
      have hkept : ∀ u ∈ r.take 2, ¬ u.IntroducesTable :=
        fun u hmember => hmarks u (List.take_subset_take_left r (by omega) hmember)
      have hwhole := tablesOf_append hmarks (r.drop (2 + n))
      rw [List.take_append_drop] at hwhole
      have hother := not_introducesTable_of_isIn (isIn_of_surplus hfound)
      rw [tablesOf_cons, tablesOf_cons, if_neg hother, if_neg hother, tablesOf_append hkept, ih,
        hwhole]
  | case3 t r hfound ih =>
      rw [tablesOf_cons, tablesOf_cons, tableName?_collapseLists, ih]

/-! ### Shortening later -/

/-- The same redaction, with lists shortened or left as they are. -/
def RedactionOptions.shortening (o : RedactionOptions) (lists : Bool) : RedactionOptions :=
  { o with collapseLists := lists }

theorem pieces_shortening (o : RedactionOptions) (ts : List Token) :
    (o.shortening true).pieces ts = collapseLists ((o.shortening false).pieces ts) :=
  rfl

/-- Redacted tokens as they show, once lists are shortened in them. -/
theorem pieces_shown_shortening (hplain : o.replaceDigits = false) (ts : List Token) :
    (o.shortening true).pieces (((o.shortening false).pieces ts).map Token.shown) =
      ((o.shortening true).pieces ts).map Token.shown := by
  have hleft : (o.shortening false).pieces (((o.shortening false).pieces ts).map Token.shown) =
      ((o.shortening false).pieces ts).map Token.shown :=
    pieces_shown_pieces (o := o.shortening false) hplain ts
  rw [pieces_shortening, hleft, pieces_shortening, collapseLists_map fun t _ => t.shown_actsAs]

/-- Lists may be shortened in the redacted text as well as while the literals are hidden; nothing
but the text depends on whether they are shortened. -/
theorem normalize_shortened_later (hplain : o.replaceDigits = false) (x : String) :
    ((o.shortening true).normalize ((o.shortening false).normalize x).redacted).redacted =
        ((o.shortening true).normalize x).redacted ∧
      ((o.shortening true).normalize x).commands = ((o.shortening false).normalize x).commands ∧
      ((o.shortening true).normalize x).tables = ((o.shortening false).normalize x).tables ∧
      ((o.shortening true).normalize x).unreadable =
        ((o.shortening false).normalize x).unreadable := by
  cases hfound : tokens (statementOf x) with
  | error e =>
      have hconcealed : ∀ o : RedactionOptions, o.normalize x = .concealed (statementOf x) := by
        intro o
        rw [RedactionOptions.normalize, hfound]
      have hplaceholder : (Normalized.concealed (statementOf x)).redacted = "?" := rfl
      have hlater := congrArg Normalized.redacted (normalize_placeholder (o.shortening true))
      rw [hconcealed, hconcealed, hplaceholder]
      exact ⟨hlater, rfl, rfl, rfl⟩
  | ok ts =>
      have hdivided : ∀ o : RedactionOptions, o.normalize x = .ofPieces o (o.pieces ts) := by
        intro o
        rw [RedactionOptions.normalize, hfound]
      have hlater : (o.shortening true).normalize ((o.shortening false).normalize x).redacted =
          .ofPieces (o.shortening true) (((o.shortening true).pieces ts).map Token.shown) := by
        have hagain := tokens_render_pieces (o := o.shortening false) hplain hfound
        rw [hdivided]
        simp only [Normalized.ofPieces]
        rw [normalize_of_tokens (by rw [String.toList_ofList]; exact hagain), pieces_unspaced,
          ofPieces_unspaced, pieces_shown_shortening hplain]
        rfl
      have hverbs := verbsOf_collapseLists ((o.shortening false).pieces ts)
      have htables := tablesOf_collapseLists ((o.shortening false).pieces ts)
      rw [hlater, hdivided, hdivided, pieces_shortening]
      refine ⟨?_, ?_, ?_, rfl⟩
      · simp only [Normalized.ofPieces, render_map_shown]
      · simp only [Normalized.ofPieces, hverbs]
        rfl
      · simp only [Normalized.ofPieces, htables]
        rfl

/-- A list with a hidden word in it, shortened later. -/
theorem list_with_null_shortened_later :
    ({} : RedactionOptions).replaceDigits = false ∧
      let x := "DELETE t FROM a.IN (1, NULL) WHERE b IN ('c', 2)"
      let shortened : RedactionOptions := RedactionOptions.shortening {} true
      let whole : RedactionOptions := RedactionOptions.shortening {} false
      (shortened.normalize (whole.normalize x).redacted).redacted =
          (shortened.normalize x).redacted ∧
        (shortened.normalize x).commands = (whole.normalize x).commands ∧
        (shortened.normalize x).tables = (whole.normalize x).tables ∧
        (shortened.normalize x).unreadable = (whole.normalize x).unreadable :=
  ⟨rfl, normalize_shortened_later rfl _⟩

end DeadlockCapture.Sql
