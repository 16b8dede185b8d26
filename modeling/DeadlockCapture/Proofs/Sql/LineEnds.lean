import DeadlockCapture.Proofs.Sql.Shape
import DeadlockCapture.Proofs.Text.LineEnds

/-!
Redacted statements whose lines end otherwise. Only quoted names are left with carriage returns in
them, and no such name stops being one when they are left out or made line feeds. So the text is
still its own redaction.
-/

namespace DeadlockCapture.Sql

open DeadlockCapture.Text

variable {o : RedactionOptions}

/-- The second token is the first, or another quoted name in its place. -/
inductive Token.Rereads : Token → Token → Prop
  | same (t : Token) : Rereads t t
  | name {text text' : List Char} (spaced : Bool) : 1 < text.length → 1 < text'.length →
      Rereads ⟨.quotedName, text, spaced⟩ ⟨.quotedName, text', spaced⟩

theorem Token.Rereads.spaced {t u : Token} (h : t.Rereads u) : u.spaced = t.spaced := by
  cases h <;> rfl

theorem Token.Rereads.actsAs {t u : Token} (h : t.Rereads u) : t.ActsAs u := by
  cases h with
  | same t => exact ⟨fun _ => Iff.rfl, Iff.rfl⟩
  | @name text text' spaced hlong hlong' =>
      refine ⟨fun c => ?_, by simp [Token.IsIn]⟩
      have hother : ∀ {s : List Char}, 1 < s.length → s ≠ [c] := by
        rintro s hlong rfl
        exact Nat.lt_irrefl 1 hlong
      exact iff_of_false (hother hlong) (hother hlong')

theorem Token.Rereads.redact {t u : Token} (h : t.Rereads u) (hplain : o.replaceDigits = false)
    (hfixed : o.redact t = t) : o.redact u = u := by
  cases h with
  | same t => exact hfixed
  | name spaced hlong hlong' => rw [redact_eq hplain]; rfl

theorem redact_of_rereads (hplain : o.replaceDigits = false) {ts us : List Token}
    (h : List.Forall₂ Token.Rereads ts us) (hfixed : ts.map o.redact = ts) :
    us.map o.redact = us := by
  induction h with
  | nil => rfl
  | cons hfirst hrest ih =>
      obtain ⟨hfixed, hothers⟩ := List.cons.inj hfixed
      rw [List.map_cons, hfirst.redact hplain hfixed, ih hothers]

theorem pieces_of_rereads (hplain : o.replaceDigits = false) {ts us : List Token}
    (h : List.Forall₂ Token.Rereads ts us) (hfixed : o.pieces ts = ts) : o.pieces us = us := by
  obtain ⟨hredacted, hcollapsed⟩ := pieces_eq_self_iff.mp hfixed
  refine pieces_eq_self_iff.mpr ⟨redact_of_rereads hplain h hredacted, fun hlists => ?_⟩
  -- As many tokens are shortened away on both sides, and on one side none.
  have hlength := (collapseLists_of_acts Token.Rereads.actsAs h).length_eq
  rw [hcollapsed hlists, h.length_eq] at hlength
  exact (collapseLists_sublist us).eq_of_length hlength.symm

/-- A quotation still ends where it ends when the ends of lines in it change. -/
theorem quotedLength_of_reended {close : Char} (hplain : close ≠ '\r' ∧ '\n' ≠ close)
    {w v : List Char} (h : quotedLength close w = some w.length) (hends : Reended w v) :
    quotedLength close v = some v.length := by
  obtain ⟨hother, hfeed⟩ := hplain
  fun_induction quotedLength close w generalizing v with
  | case1 => simp at h
  | case2 =>
      obtain ⟨t, rfl, hrest⟩ := hends.of_cons hother
      cases hrest
      simp [quotedLength]
  | case3 => simp at h
  | case4 r ih =>
      obtain ⟨v, rfl, hsecond⟩ := hends.of_cons hother
      obtain ⟨t, rfl, hrest⟩ := hsecond.of_cons hother
      have hinner := ih (by simpa using h) hrest
      simp [quotedLength, hinner]
  | case5 d r hdiffers => simp at h
  | case6 c d r hdiffers ih =>
      have hinner : ∀ {t}, Reended (d :: r) t → quotedLength close t = some t.length :=
        fun hrest => ih (by simpa using h) hrest
      have hlonger : ∀ {e : Char} {t}, e ≠ close → Reended (d :: r) t →
          quotedLength close (e :: t) = some (e :: t).length := by
        intro e t hdiffers hrest
        have hfilled : t ≠ [] := by
          rintro rfl
          cases hinner hrest
        rw [quotedLength_cons hdiffers hfilled, hinner hrest]
        rfl
      cases hends with
      | keep _ hrest => exact hlonger hdiffers hrest
      | feed hrest => exact hlonger hfeed hrest
      | drop hrest => exact hinner hrest

theorem quiet_of_quotations {c close : Char} (hmarks : (c, close) ∈ quotations) :
    (Quiet c ∧ c ≠ '\r') ∧ close ≠ '\r' ∧ '\n' ≠ close := by
  simp only [quotations, List.mem_cons, Prod.mk.injEq, List.not_mem_nil, or_false] at hmarks
  rcases hmarks with ⟨rfl, rfl⟩ | ⟨rfl, rfl⟩ | ⟨rfl, rfl⟩ <;> decide

/-- A token that is no text literal is read again when the ends of lines in it change, before a text
that is calmer than the one it stands before. -/
theorem exists_reread {t : Token} {r r' text : List Char} (hstands : t.lexeme.Stands r)
    (hshows : t.kind ≠ .text) (hcalm : Calmer r r') (hends : Reended t.text text) :
    ∃ u, u.text = text ∧ t.Rereads u ∧ u.lexeme.Stands r' ∧
      Calmer (t.text ++ r) (text ++ r') := by
  obtain ⟨kind, before, spaced⟩ := t
  obtain ⟨c, w, hfirst, hfound⟩ := id hstands
  obtain rfl : before = c :: w := hfirst
  by_cases hquoted : kind = .quotedName
  · subst hquoted
    obtain ⟨close, hmarks, hclosed, hstops⟩ := quotedName_stands_iff.mp hstands
    obtain ⟨⟨hquiet, hother⟩, hplain⟩ := quiet_of_quotations hmarks
    obtain ⟨v, rfl, hrest⟩ := hends.of_cons hother
    have hclosed' := quotedLength_of_reended hplain hclosed hrest
    have hlong := Nat.succ_lt_succ (quotedLength_pos hclosed)
    have hlong' := Nat.succ_lt_succ (quotedLength_pos hclosed')
    refine ⟨⟨.quotedName, c :: v, spaced⟩, rfl, .name spaced hlong hlong', ?_, ?_⟩
    · have hstops' := mt (hcalm.mark (mem_of_quotations hmarks).2) hstops
      exact quotedName_stands_iff.mpr ⟨close, hmarks, hclosed', hstops'⟩
    · refine Calmer.of_quiet ?_
      rintro d ⟨⟩
      exact ⟨hquiet, .inl rfl⟩
  · -- No other token holds a blank, so this one is as it was.
    have hnone : '\r' ∉ c :: w := fun hmember =>
      absurd (isBlank_of_token hfound ⟨hshows, hquoted⟩ '\r' hmember) (by decide)
    obtain rfl := hends.eq_of_not_mem hnone
    exact ⟨⟨kind, c :: w, spaced⟩, rfl, .same _, hstands.calmer rfl hcalm, hcalm.append _⟩

/-- Tokens that hide their literals are read again when the ends of lines in their text change. -/
theorem exists_rereads {ts : List Token} (hlegible : Legible ts) (hshows : ∀ t ∈ ts, t.kind ≠ .text)
    {v : List Char} (hends : Reended (renderRest ts) v) :
    ∃ us, List.Forall₂ Token.Rereads ts us ∧ renderRest us = v ∧ Legible us ∧
      Calmer (renderRest ts) v := by
  induction ts generalizing v with
  | nil =>
      cases hends
      exact ⟨[], .nil, rfl, trivial, Calmer.refl _⟩
  | cons t r ih =>
      obtain ⟨hstands, hlegible⟩ := hlegible
      obtain ⟨hfirst, hothers⟩ := List.forall_mem_cons.mp hshows
      -- The text of the token and what follows it, without the space in front.
      have htoken : ∀ {v}, Reended (t.text ++ renderRest r) v → ∃ u us, t.Rereads u ∧
          List.Forall₂ Token.Rereads r us ∧ u.text ++ renderRest us = v ∧ Legible (u :: us) ∧
          Calmer (t.text ++ renderRest r) v := by
        intro v hends
        obtain ⟨text, v, rfl, hown, hlater⟩ := hends.of_append
        obtain ⟨us, hrereads, rfl, hlegible, hcalm⟩ := ih hlegible hothers hlater
        obtain ⟨u, rfl, hsame, hstands, hnear⟩ := exists_reread hstands hfirst hcalm hown
        exact ⟨u, us, hsame, hrereads, rfl, ⟨hstands, hlegible⟩, hnear⟩
      rw [renderRest_cons] at hends ⊢
      cases hspaced : t.spaced with
      | true =>
          rw [hspaced] at hends
          obtain ⟨v, rfl, hlater⟩ := Reended.of_cons hends (by decide)
          obtain ⟨u, us, hsame, hrereads, rfl, hlegible, -⟩ := htoken hlater
          refine ⟨u :: us, .cons hsame hrereads, ?_, hlegible, Calmer.of_inert ?_⟩
          · rw [renderRest_cons, hsame.spaced, hspaced]
            rfl
          · rintro d ⟨⟩
            exact .inl (by decide)
      | false =>
          rw [hspaced] at hends
          obtain ⟨u, us, hsame, hrereads, rfl, hlegible, hnear⟩ := htoken hends
          refine ⟨u :: us, .cons hsame hrereads, ?_, hlegible, hnear⟩
          rw [renderRest_cons, hsame.spaced, hspaced]
          rfl

theorem unspaced_of_rereads {ts us : List Token}
    (h : List.Forall₂ Token.Rereads (unspaced ts) us) : unspaced us = us := by
  cases ts with
  | nil =>
      cases h
      rfl
  | cons t r =>
      obtain _ | ⟨hfirst, -⟩ := h
      have hfront : _ = false := hfirst.spaced
      rw [unspaced, ← hfront]

/-- A redacted text is its own redaction also when the ends of lines in it change. -/
theorem redacted_of_reended (hplain : o.replaceDigits = false) (x : String) {v : List Char}
    (hends : Reended (o.normalize x).redacted.toList v) :
    trim v = v ∧ (o.normalize (String.ofList v)).redacted = String.ofList v := by
  obtain hconcealed | ⟨ls, -, hreadable, hrendered⟩ := redacted_cases o x
  · rw [hconcealed] at hends
    obtain rfl := hends.eq_of_not_mem (by decide)
    have htrimmed := trim_redacted o x
    rw [hconcealed] at htrimmed
    refine ⟨htrimmed, ?_⟩
    rw [String.ofList_toList, normalize_placeholder]
    rfl
  · rw [hrendered, ← render_map_shown, render_eq] at hends
    have hfixed := pieces_shown_pieces hplain (tokensAfter false ls)
    obtain ⟨us, hrereads, rfl, hlegible, -⟩ :=
      exists_rereads (legible_pieces hplain hreadable false).unspaced
        (fun t hmember => (kind_of_mem_unspaced hplain hmember).1.1) hends
    have hrender : render us = renderRest us := by
      rw [render_eq, unspaced_of_rereads hrereads]
    constructor
    · rw [← hrender]
      exact trim_render hlegible.solid
    · have hfound : tokens (String.ofList (renderRest us)).toList = .ok us := by
        rw [String.toList_ofList]
        exact hlegible.tokens_renderRest
      rw [normalize_of_tokens hfound,
        pieces_of_rereads hplain hrereads (by rw [pieces_unspaced, hfixed])]
      exact congrArg String.ofList hrender

end DeadlockCapture.Sql
