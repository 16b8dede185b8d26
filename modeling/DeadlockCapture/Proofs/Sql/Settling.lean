import DeadlockCapture.Proofs.Sql.Fragments

/-!
Normal forms with replaced digits, normalized again. A name may fall into fragments that are hidden
when they are read: the words for values. Or its last fragment may be the word IN, and a list after
it is shortened. Otherwise a redacted text is its own redaction; and the redaction of a redacted
text always is, because no name in it has digits.
-/

namespace DeadlockCapture.Sql

open DeadlockCapture.Text

variable {o : RedactionOptions}

/-! ### Lists that are not shortened -/

/-- No list is left to be shortened. -/
def Collapsed : List Token → Prop
  | [] => True
  | t :: r => (∀ n ∈ surplus t r, n = 0) ∧ Collapsed r

theorem opening_of_surplus {t opening : Token} {r : List Token} {n : Nat}
    (h : surplus t (opening :: r) = some n) : opening.text = ['('] := by
  unfold surplus at h
  split at h
  · rename_i hlist
    simpa using hlist.2.2
  · cases h

theorem collapseLists_eq_self_iff {ts : List Token} : collapseLists ts = ts ↔ Collapsed ts := by
  fun_induction collapseLists ts with
  | case1 => exact iff_of_true rfl trivial
  | case2 t r n hfound ih =>
      obtain ⟨opening, item, inner, rfl, hfirst, close, q, hrest, -⟩ := surplus_some hfound
      have hquiet := surplus_of_single (opening_of_surplus hfound) (item :: inner)
      have hquiet' := surplus_of_single hfirst inner
      have hdrop : (opening :: item :: inner).drop (2 + n) = inner.drop n := by
        rw [Nat.add_comm, List.drop_succ_cons, List.drop_succ_cons]
      rw [hdrop] at hrest ih ⊢
      simp only [Collapsed, hfound, hquiet, hquiet', List.take_succ_cons, List.take_zero,
        List.cons_append, List.nil_append, List.cons.injEq, true_and, Option.mem_some_iff]
      constructor
      · intro hsame
        have hshort := (collapseLists_sublist (inner.drop n)).length_le
        have hmore : (inner.drop n).length ≠ 0 := by
          rw [hrest]
          exact Nat.succ_ne_zero _
        rw [hsame] at hshort
        rw [List.length_drop] at hshort hmore
        obtain rfl : n = 0 := by omega
        rw [List.drop_zero] at ih hsame
        refine ⟨?_, ?_, ?_, ih.mp hsame⟩
        · rintro m rfl
          rfl
        · rintro m ⟨⟩
        · rintro m ⟨⟩
      · rintro ⟨hnone, -, -, hwhole⟩
        obtain rfl : n = 0 := hnone n rfl
        rw [List.drop_zero] at ih ⊢
        exact ih.mpr hwhole
  | case3 t r hfound ih =>
      simp [Collapsed, hfound, ih]

theorem collapsed_append {us ws : List Token} (hplain : ∀ u ∈ us, u.text ≠ ['(']) :
    Collapsed (us ++ ws) ↔
      (∀ u ∈ us.getLast?, ∀ n ∈ surplus u ws, n = 0) ∧ Collapsed ws := by
  induction us with
  | nil => simp
  | cons u us ih =>
      obtain ⟨-, hothers⟩ := List.forall_mem_cons.mp hplain
      cases us with
      | nil => simp [Collapsed]
      | cons v vs =>
          have hquiet : surplus u (v :: vs ++ ws) = none := by
            simp [surplus, hothers v List.mem_cons_self]
          rw [List.cons_append, Collapsed, hquiet, ih hothers, List.getLast?_cons_cons]
          simp

/-! ### Names that fall into fragments -/

/-- No word falls into fragments of which one is hidden, or of which the last shortens a list. -/
def RedactionOptions.Settled (o : RedactionOptions) : List Token → Prop
  | [] => True
  | p :: r =>
    (p.kind = .word →
      (∀ u ∈ p.fragments, u.kind = .word → o.isLiteralWord u = false) ∧
        (o.collapseLists = true → ∀ u ∈ p.fragments.getLast?, ∀ n ∈ surplus u r, n = 0)) ∧
      o.Settled r

instance decidableSettled (o : RedactionOptions) : DecidablePred o.Settled
  | [] => isTrue trivial
  | _ :: r =>
    have := decidableSettled o r
    inferInstanceAs (Decidable (_ ∧ _))

theorem isDigit_replaceDigitsAfter {inRun : Bool} {s : List Char} :
    ∀ c ∈ replaceDigitsAfter inRun s, c.isDigit = false := by
  fun_induction replaceDigitsAfter inRun s with
  | case1 => simp
  | case2 d r hdigit ih => exact ih
  | case3 inRun d r hdigit hrun ih => exact List.forall_mem_cons.mpr ⟨by decide, ih⟩
  | case4 inRun d r hother ih => exact List.forall_mem_cons.mpr ⟨by simpa using hother, ih⟩

theorem mem_renderRest_of_mem {ts : List Token} {t : Token} {c : Char} (h : t ∈ ts)
    (hinside : c ∈ t.text) : c ∈ renderRest ts := by
  refine List.mem_flatMap.mpr ⟨t, h, ?_⟩
  split
  · exact List.mem_cons_of_mem _ hinside
  · exact hinside

/-- The characters of a fragment are those of the name it belongs to. -/
theorem mem_fragments {t u : Token} {r : List Char} {c : Char} (hstands : t.lexeme.Stands r)
    (hword : t.kind = .word) (h : u ∈ t.veiled.fragments) (hinside : c ∈ u.text) :
    c ∈ replaceDigitRuns t.text := by
  obtain ⟨hwhole, -, -⟩ := fragments_of_word hstands hword
  have hmember := mem_renderRest_of_mem h hinside
  rwa [hwhole, Token.veiled, if_pos (.inl hword)] at hmember

theorem fragment_ne_opening {t u : Token} {r : List Char} (hstands : t.lexeme.Stands r)
    (hword : t.kind = .word) (h : u ∈ t.veiled.fragments) : u.text ≠ ['('] := by
  intro hsame
  have hmember := mem_fragments hstands hword h (hsame ▸ List.mem_singleton_self '(')
  obtain ⟨hname, -⟩ := name_of_word hstands hword
  obtain hmark | ⟨hcontinues, -⟩ := fragments_replaceDigitsAfter hname '(' hmember
  · cases hmark
  · exact absurd hcontinues (by decide)

theorem collapsed_spacedAs {gap : Bool} {us ws : List Token} :
    Collapsed (spacedAs gap us ++ ws) ↔ Collapsed (us ++ ws) := by
  cases us <;> rfl

theorem fragments_of_placeholder {t : Token} (h : t.text = placeholderText) :
    t.fragments = [⟨.placeholder, placeholderText, false⟩] := by
  rw [Token.fragments, h]
  exact congrArg (·.toOption.getD []) tokens_placeholder

theorem surplus_of_kind {t : Token} (h : t.kind ≠ .word) (r : List Token) : surplus t r = none := by
  simp [surplus, h]

theorem values_spacedAs {gap : Bool} {us : List Token} :
    (∀ u ∈ spacedAs gap us, u.kind = .word → o.isLiteralWord u = false) ↔
      ∀ u ∈ us, u.kind = .word → o.isLiteralWord u = false := by
  cases us with
  | nil => exact Iff.rfl
  | cons u us =>
      rw [spacedAs, List.forall_mem_cons, List.forall_mem_cons]
      exact Iff.rfl

/-- What is no word or has been hidden does not fall into fragments. -/
theorem settled_cons_of_placeholder {p : Token} (h : p.kind = .word → p.text = placeholderText)
    (r : List Token) : o.Settled (p :: r) ↔ o.Settled r := by
  apply and_iff_right
  intro hword
  rw [fragments_of_placeholder (h hword)]
  simp [surplus]

/-- Tokens whose digits are replaced are settled if nothing in their parts is to be hidden and no
list among these is to be shortened. -/
theorem settled_iff {qs : List Token} (hlegible : Legible (qs.map Token.shown)) :
    o.Settled (qs.map Token.veiled) ↔
      (∀ u ∈ partsOf qs, u.kind = .word → o.isLiteralWord u = false) ∧
        (o.collapseLists = true → Collapsed (partsOf qs)) := by
  induction qs with
  | nil => simp [RedactionOptions.Settled, partsOf, Collapsed]
  | cons q qs ih =>
      obtain ⟨hstands, hrest⟩ := hlegible
      rw [partsOf_cons, List.map_cons, List.forall_mem_append]
      by_cases hword : q.shown.kind = .word
      · have hsame := shown_of_word hword
        rw [hsame] at hstands hword ⊢
        have hkind : q.veiled.kind = .word := (kind_veiled q).trans hword
        have hplain : ∀ u ∈ q.veiled.fragments, u.text ≠ ['('] :=
          fun u hmember => fragment_ne_opening hstands hword hmember
        rw [RedactionOptions.Settled, ih hrest, Token.parts, if_pos hword, collapsed_spacedAs,
          collapsed_append hplain, values_spacedAs]
        simp only [hkind, true_imp_iff, surplus_partsOf hrest]
        tauto
      · have hhidden : q.veiled.kind = .word → q.veiled.text = placeholderText := by
          intro hkind
          apply veiled_of_placeholder
          apply Decidable.byContradiction
          intro hshows
          rw [shown_of_ne hshows] at hword
          exact hword ((kind_veiled q).symm.trans hkind)
        have hother : q.shown.veiled.kind ≠ .word := by
          rwa [kind_veiled]
        have hfirst : ∀ u ∈ [q.shown.veiled], u.kind = .word → o.isLiteralWord u = false := by
          intro u hmember hkind
          rw [List.mem_singleton.mp hmember] at hkind
          exact absurd hkind hother
        have hquiet : ∀ n ∈ surplus q.shown.veiled (partsOf qs), n = 0 := by
          rw [surplus_of_kind hother]
          simp
        rw [settled_cons_of_placeholder hhidden, ih hrest, Token.parts, if_neg hword,
          List.singleton_append, Collapsed, and_iff_right hfirst, and_iff_right hquiet]

/-! ### Names without digits -/

/-- A name without digits. What is no name has none. -/
def Token.Bare (t : Token) : Prop :=
  t.kind = .word ∨ t.kind = .quotedName → ∀ c ∈ t.text, c.isDigit = false

theorem Token.Bare.veiled {t : Token} (h : t.Bare) : t.veiled = t := by
  unfold Token.veiled
  split
  · rename_i hname
    rw [replaceDigitRuns_of_plain (h hname)]
  · rfl

theorem bare_of_placeholder {t : Token} (h : t.text = placeholderText) : t.Bare := by
  intro _ c hmember
  rw [h] at hmember
  rw [List.mem_singleton.mp hmember]
  decide

theorem bare_shown {t : Token} (h : t.Bare) : t.shown.Bare := by
  by_cases hhidden : t.text = placeholderText
  · exact bare_of_placeholder ((text_shown t).trans hhidden)
  · rwa [shown_of_ne hhidden]

theorem bare_redact {t : Token} (h : t.Bare) : (o.keepingDigits.redact t).Bare := by
  rw [redact_keepingDigits]
  split
  · exact bare_of_placeholder rfl
  · exact h

/-- Where names have no digits, replacing digits makes no difference. -/
theorem pieces_of_bare {ts : List Token} (hdigits : o.replaceDigits = true)
    (hbare : ∀ t ∈ ts, t.Bare) : o.pieces ts = o.keepingDigits.pieces ts := by
  have hsame : ts.map o.redact = ts.map o.keepingDigits.redact := by
    apply List.map_congr_left
    intro t hmember
    rw [redact_of_digits hdigits, (bare_redact (hbare t hmember)).veiled]
  have hlists : o.keepingDigits.collapseLists = o.collapseLists := rfl
  rw [RedactionOptions.pieces, RedactionOptions.pieces, hlists, hsame]

theorem bare_pieces {ts : List Token} (hbare : ∀ t ∈ ts, t.Bare) :
    ∀ p ∈ o.keepingDigits.pieces ts, p.Bare := by
  intro p hmember
  obtain ⟨t, hinside, rfl⟩ := redact_of_mem_pieces hmember
  exact bare_redact (hbare t hinside)

theorem bare_veiled (t : Token) : t.veiled.Bare := by
  intro hname
  rw [kind_veiled] at hname
  rw [Token.veiled, if_pos hname]
  exact isDigit_replaceDigitsAfter

theorem bare_partsOf {qs : List Token} (hlegible : Legible (qs.map Token.shown)) :
    ∀ u ∈ partsOf qs, u.Bare := by
  induction qs with
  | nil => simp [partsOf]
  | cons q qs ih =>
      obtain ⟨hstands, hrest⟩ := hlegible
      rw [partsOf_cons, List.forall_mem_append]
      refine ⟨?_, ih hrest⟩
      by_cases hword : q.shown.kind = .word
      · rw [Token.parts, if_pos hword]
        intro u hmember _ c hinside
        obtain ⟨v, hfragment, -, htext⟩ := mem_spacedAs hmember
        rw [htext] at hinside
        exact isDigit_replaceDigitsAfter c (mem_fragments hstands hword hfragment hinside)
      · rw [Token.parts, if_neg hword]
        intro u hmember
        rw [List.mem_singleton.mp hmember]
        exact bare_veiled q.shown

/-! ### What redaction shortens -/

theorem length_renderRest_cons (t : Token) (r : List Token) :
    (renderRest (t :: r)).length =
      (if t.spaced then 1 else 0) + t.text.length + (renderRest r).length := by
  rw [renderRest_cons, List.length_append]
  cases t.spaced with
  | true => simp [Nat.add_comm]
  | false => simp

/-- Tokens that are left out shorten the text. -/
theorem sublist_shortens {ps ts : List Token} (h : ps.Sublist ts)
    (hfilled : ∀ t ∈ ts, t.text ≠ []) :
    ps = ts ∨ (renderRest ps).length < (renderRest ts).length := by
  induction h with
  | slnil => exact .inl rfl
  | @cons ps ts t _ ih =>
      right
      obtain ⟨hfirst, hrest⟩ := List.forall_mem_cons.mp hfilled
      have hpos := List.length_pos_iff.mpr hfirst
      have hlater : (renderRest ps).length ≤ (renderRest ts).length := by
        obtain rfl | hless := ih hrest
        · exact Nat.le_refl _
        · exact Nat.le_of_lt hless
      rw [length_renderRest_cons]
      omega
  | @cons_cons ps ts t _ ih =>
      obtain rfl | hless := ih (List.forall_mem_cons.mp hfilled).2
      · exact .inl rfl
      · right
        rw [length_renderRest_cons, length_renderRest_cons]
        omega

/-- Hidden words shorten the text. -/
theorem redact_shortens {ts : List Token}
    (hvalues : ∀ t ∈ ts, o.hides t = true → 1 < t.text.length) :
    ts.map o.keepingDigits.redact = ts ∨
      (renderRest (ts.map o.keepingDigits.redact)).length < (renderRest ts).length := by
  induction ts with
  | nil => exact .inl rfl
  | cons t r ih =>
      obtain ⟨hfirst, hrest⟩ := List.forall_mem_cons.mp hvalues
      rw [List.map_cons, length_renderRest_cons, length_renderRest_cons, redact_keepingDigits]
      cases hhidden : o.hides t with
      | true =>
          have hlong := hfirst hhidden
          right
          simp only [if_true, placeholderText, List.length_singleton]
          obtain hequal | hless := ih hrest
          · rw [hequal]
            omega
          · omega
      | false =>
          simp only [Bool.false_eq_true, if_false]
          obtain hequal | hless := ih hrest
          · exact .inl (by rw [hequal])
          · exact .inr (by omega)

theorem length_of_isLiteralWord {t : Token} (h : o.isLiteralWord t = true) :
    1 < t.text.length := by
  have hlength : ∀ word : String, t.spells word = true → t.text.length = word.toList.length := by
    intro word hspells
    have hsame : t.text.map Char.toUpper = word.toList := by simpa [Token.spells] using hspells
    rw [← hsame, List.length_map]
  simp only [RedactionOptions.isLiteralWord, Bool.or_eq_true, Bool.and_eq_true] at h
  obtain ⟨-, hnull⟩ | ⟨-, hyes | hno⟩ := h
  · rw [hlength _ hnull]
    decide
  · rw [hlength _ hyes]
    decide
  · rw [hlength _ hno]
    decide

theorem hides_of_shown {t : Token} (hshows : t.kind ≠ .text ∧ t.kind ≠ .number) :
    o.hides t = true ↔ t.kind = .word ∧ o.isLiteralWord t = true := by
  obtain ⟨kind, text, spaced⟩ := t
  cases kind <;> simp_all [RedactionOptions.hides]

theorem redact_eq_self_iff {t : Token} (hshows : t.kind ≠ .text ∧ t.kind ≠ .number) :
    o.keepingDigits.redact t = t ↔ (t.kind = .word → o.isLiteralWord t = false) := by
  rw [redact_keepingDigits]
  cases hhidden : o.hides t with
  | true =>
      obtain ⟨hword, hvalue⟩ := (hides_of_shown hshows).mp hhidden
      have hlong := length_of_isLiteralWord hvalue
      have hdiffers : ({ t with text := placeholderText } : Token) ≠ t := by
        intro hwhole
        have htext := congrArg (·.text.length) hwhole
        simp only [placeholderText, List.length_singleton] at htext
        omega
      exact iff_of_false hdiffers (by simp [hword, hvalue])
  | false =>
      have hkept := mt (hides_of_shown (o := o) hshows).mpr (by simp [hhidden])
      simpa using hkept

/-- Tokens without literals and without digits in names are left as they are if their text is. -/
theorem pieces_eq_self_of_renderRest {ts : List Token} (hfilled : ∀ t ∈ ts, t.text ≠ [])
    (hshows : ∀ t ∈ ts, t.kind ≠ .text ∧ t.kind ≠ .number)
    (hsame : renderRest (o.keepingDigits.pieces ts) = renderRest ts) :
    o.keepingDigits.pieces ts = ts := by
  have hvalues : ∀ t ∈ ts, o.hides t = true → 1 < t.text.length := fun t hmember hhidden =>
    length_of_isLiteralWord ((hides_of_shown (hshows t hmember)).mp hhidden).2
  have hfilled' : ∀ t ∈ ts.map o.keepingDigits.redact, t.text ≠ [] := by
    intro p hmember
    obtain ⟨t, hinside, rfl⟩ := List.mem_map.mp hmember
    rw [redact_keepingDigits]
    split
    · exact List.cons_ne_nil _ _
    · exact hfilled t hinside
  have hpart : (o.keepingDigits.pieces ts).Sublist (ts.map o.keepingDigits.redact) := by
    rw [RedactionOptions.pieces]
    split
    · exact collapseLists_sublist _
    · exact .refl _
  have hlength := congrArg List.length hsame
  obtain hwhole | hless := sublist_shortens hpart hfilled'
  · rw [hwhole] at hlength ⊢
    obtain hequal | hless := redact_shortens hvalues
    · exact hequal
    · omega
  · obtain hequal | hless' := redact_shortens hvalues
    · rw [hequal] at hless
      omega
    · omega

/-! ### Normalizing again -/

theorem settled_unspaced (ps : List Token) : o.Settled (unspaced ps) ↔ o.Settled ps := by
  cases ps <;> rfl

theorem unspaced_parts {q : Token} {r : List Char} (hstands : q.shown.lexeme.Stands r)
    (hjoined : q.spaced = false) (ws : List Token) :
    unspaced (q.shown.parts ++ ws) = q.shown.parts ++ ws := by
  by_cases hword : q.shown.kind = .word
  · obtain ⟨u, us, hfound, -⟩ := first_fragment hstands hword
    rw [Token.parts, if_pos hword, hfound, spaced_shown, hjoined]
    rfl
  · have hkept : ({ q.shown.veiled with spaced := false } : Token) = q.shown.veiled := by
      rw [← hjoined, ← spaced_shown, ← spaced_veiled]
    rw [Token.parts, if_neg hword, List.singleton_append, unspaced, hkept]

theorem unspaced_partsOf {qs : List Token} (hlegible : Legible ((unspaced qs).map Token.shown)) :
    unspaced (partsOf (unspaced qs)) = partsOf (unspaced qs) := by
  cases qs with
  | nil => rfl
  | cons q qs => exact unspaced_parts hlegible.1 rfl (partsOf qs)

theorem solid_of_tokens {s : List Char} {ts : List Token} (h : tokens s = .ok ts) :
    ∀ t ∈ ts, Solid t.text := by
  obtain ⟨ls, -, hreadable, rfl⟩ := tokens_eq_ok_iff.mp h
  intro t hmember
  obtain ⟨r, hstands⟩ := hreadable.stands_of_mem (mem_of_mem_tokensAfter hmember)
  exact solid_of_stands hstands

/-- What a redacted text is divided into when digits are replaced: tokens without literals and
without digits in names, which make up the text. -/
structure Redivided (o : RedactionOptions) (ts ws : List Token) : Prop where
  found : tokens (render (o.pieces ts)) = .ok ws
  text : renderRest ws = render (o.pieces ts)
  joined : unspaced ws = ws
  bare : ∀ w ∈ ws, w.Bare
  shows : ∀ w ∈ ws, w.kind ≠ .text ∧ w.kind ≠ .number
  settled : o.Settled (o.pieces ts) ↔
    (∀ w ∈ ws, w.kind = .word → o.isLiteralWord w = false) ∧
      (o.collapseLists = true → Collapsed ws)

theorem redivided_of_tokens (hdigits : o.replaceDigits = true) {s : List Char} {ts : List Token}
    (h : tokens s = .ok ts) : ∃ ws, Redivided o ts ws := by
  obtain ⟨hlegible, hshows, hfound, htext⟩ := tokens_render_pieces_of_digits hdigits h
  refine ⟨_, hfound, htext, unspaced_partsOf hlegible, bare_partsOf hlegible,
    kind_of_mem_partsOf hlegible hshows, ?_⟩
  obtain ⟨ls, -, hreadable, rfl⟩ := tokens_eq_ok_iff.mp h
  rw [← settled_iff hlegible, ← unspaced_map_veiled, settled_unspaced,
    pieces_of_digits hdigits hreadable]

namespace Redivided

variable {ts ws : List Token}

/-- What the redacted text is redacted to. -/
theorem normalize_eq (h : Redivided o ts ws) (hdigits : o.replaceDigits = true) :
    o.normalize (String.ofList (render (o.pieces ts))) =
      .ofPieces o (o.keepingDigits.pieces ws) := by
  have hfound : tokens (String.ofList (render (o.pieces ts))).toList = .ok ws := by
    rw [String.toList_ofList]
    exact h.found
  rw [normalize_of_tokens hfound, pieces_of_bare hdigits h.bare]

theorem render_pieces (h : Redivided o ts ws) :
    render (o.keepingDigits.pieces ws) = renderRest (o.keepingDigits.pieces ws) := by
  rw [render_eq, ← pieces_unspaced, h.joined]

/-- The redacted text is redacted to itself exactly if its words are settled. -/
theorem render_eq_iff (h : Redivided o ts ws) :
    render (o.keepingDigits.pieces ws) = render (o.pieces ts) ↔ o.Settled (o.pieces ts) := by
  have hlists : o.keepingDigits.collapseLists = o.collapseLists := rfl
  have hredacts : ∀ w ∈ ws, (o.keepingDigits.redact w = id w ↔
      (w.kind = .word → o.isLiteralWord w = false)) :=
    fun w hmember => redact_eq_self_iff (h.shows w hmember)
  have hunhidden : ws.map o.keepingDigits.redact = ws ↔
      ∀ w ∈ ws, w.kind = .word → o.isLiteralWord w = false := by
    rw [← forall₂_congr hredacts, ← List.map_inj_left, List.map_id]
  rw [h.render_pieces, ← h.text, h.settled, ← hlists, ← hunhidden]
  simp only [← collapseLists_eq_self_iff, ← pieces_eq_self_iff]
  constructor
  · exact pieces_eq_self_of_renderRest (fun w hmember => (solid_of_tokens h.found w hmember).filled)
      h.shows
  · intro hsame
    rw [hsame]

/-- The redaction of the redacted text is its own redaction. -/
theorem settles (h : Redivided o ts ws) (hdigits : o.replaceDigits = true) :
    (o.normalize (String.ofList (render (o.keepingDigits.pieces ws)))).redacted =
      String.ofList (render (o.keepingDigits.pieces ws)) := by
  have hfound := tokens_render_pieces (o := o.keepingDigits) rfl h.found
  have hbare : ∀ w ∈ unspaced ((o.keepingDigits.pieces ws).map Token.shown), w.Bare := by
    intro w hmember
    obtain ⟨v, hinside, hkind, htext⟩ := mem_unspaced hmember
    obtain ⟨p, hpiece, rfl⟩ := List.mem_map.mp hinside
    have hshown := bare_shown (bare_pieces h.bare p hpiece)
    intro hname c
    rw [htext]
    rw [hkind] at hname
    exact hshown hname c
  have hwhole : tokens (String.ofList (render (o.keepingDigits.pieces ws))).toList =
      .ok (unspaced ((o.keepingDigits.pieces ws).map Token.shown)) := by
    rw [String.toList_ofList]
    exact hfound
  rw [normalize_of_tokens hwhole, pieces_of_bare hdigits hbare, pieces_unspaced,
    pieces_shown_pieces rfl, ofPieces_unspaced]
  exact congrArg String.ofList (render_map_shown _)

end Redivided

/-- No word of the statement falls into fragments that are hidden or that shorten a list. -/
def RedactionOptions.Settles (o : RedactionOptions) (x : String) : Prop :=
  ∀ ts ∈ (tokens (statementOf x)).toOption, o.Settled (o.pieces ts)

instance (x : String) : Decidable (o.Settles x) :=
  inferInstanceAs (Decidable (∀ ts ∈ (tokens (statementOf x)).toOption, o.Settled (o.pieces ts)))

/-- Where digits are replaced, a redacted text is its own redaction exactly if the words of the
statement are settled, and the redaction of a redacted text always is. -/
theorem normalize_redacted_text_of_digits (hdigits : o.replaceDigits = true) (x : String) :
    ((o.normalize (o.normalize x).redacted).redacted = (o.normalize x).redacted ↔ o.Settles x) ∧
      (o.normalize (o.normalize (o.normalize x).redacted).redacted).redacted =
        (o.normalize (o.normalize x).redacted).redacted := by
  cases hfound : tokens (statementOf x) with
  | error e =>
      have hfirst : (o.normalize x).redacted = "?" := by
        rw [RedactionOptions.normalize, hfound]
        rfl
      have hagain : (o.normalize "?").redacted = "?" := by
        rw [normalize_placeholder]
        rfl
      rw [hfirst, hagain, hagain]
      refine ⟨iff_of_true rfl ?_, rfl⟩
      intro ts hdivided
      rw [hfound] at hdivided
      cases hdivided
  | ok ts =>
      obtain ⟨ws, hredivided⟩ := redivided_of_tokens hdigits hfound
      have hfirst : (o.normalize x).redacted = String.ofList (render (o.pieces ts)) := by
        rw [RedactionOptions.normalize, hfound]
        rfl
      have hsecond : (o.normalize (o.normalize x).redacted).redacted =
          String.ofList (render (o.keepingDigits.pieces ws)) := by
        rw [hfirst, hredivided.normalize_eq hdigits]
        rfl
      rw [hsecond, hfirst, hredivided.settles hdigits]
      refine ⟨?_, rfl⟩
      have hsettles : o.Settles x ↔ o.Settled (o.pieces ts) := by
        have hdivided : (tokens (statementOf x)).toOption = some ts := by
          rw [hfound]
          rfl
        rw [RedactionOptions.Settles, hdivided]
        simp only [Option.mem_some_iff, forall_eq']
      rw [String.ofList_inj, hredivided.render_eq_iff, hsettles]

def digitOptions : RedactionOptions :=
  { replaceDigits := true }

def numberedQuery : String :=
  "SELECT a1b FROM t2 WHERE c IN (1, 2)"

theorem numbered_query_settles :
    (digitOptions.replaceDigits = true ∧ digitOptions.Settles numberedQuery) ∧
      (digitOptions.normalize (digitOptions.normalize numberedQuery).redacted).redacted =
        (digitOptions.normalize numberedQuery).redacted := by
  have hsettles : digitOptions.Settles numberedQuery := by decide +kernel
  exact ⟨⟨rfl, hsettles⟩, (normalize_redacted_text_of_digits rfl numberedQuery).1.mpr hsettles⟩

/-- A name may hide the word NULL, which shows once the digits of the name are replaced. -/
theorem numbered_name_hides_null :
    digitOptions.replaceDigits = true ∧
      (digitOptions.normalize "SELECT x1null").redacted = "SELECT x?null" ∧
      (digitOptions.normalize (digitOptions.normalize "SELECT x1null").redacted).redacted =
        "SELECT x??" := by
  refine ⟨rfl, ?_, ?_⟩ <;> decide +kernel

end DeadlockCapture.Sql
