import DeadlockCapture.Proofs.Sql.Literals
import DeadlockCapture.Proofs.Sql.Separators

/-!
Where the tokens of a text stand in it. Every character belongs to a token or to a gap between
tokens, and a text is refused at the first construct that is never closed.
-/

namespace DeadlockCapture.Sql

open DeadlockCapture.Text

/-! ### Comments in their surroundings -/

theorem comment_stands_iff {text r : List Char} :
    Lexeme.Stands ⟨.comment, text⟩ r ↔
      (∃ body, text = '/' :: '*' :: body ∧ CommentBody body) ∨
        ∃ body, text = '-' :: '-' :: body ∧ '\n' ∉ body ∧ ∀ c ∈ r.head?, c = '\n' := by
  constructor
  · rintro ⟨c, w, rfl, hfound⟩
    rcases leading_comment_iff.mp hfound with ⟨rfl, hdash, hrun⟩ | ⟨rfl, hstar, hlength⟩
    · obtain ⟨hinside, hstops⟩ := run_eq_length_iff.mp hrun
      cases w with
      | nil => exact absurd (hstops '-' hdash) (by decide)
      | cons d body =>
          cases hdash
          refine .inr ⟨body, rfl, fun hmember => ?_, by simpa using hstops⟩
          exact absurd (hinside '\n' (List.mem_cons_of_mem _ hmember)) (by decide)
    · cases w with
      | nil => simp at hlength
      | cons d body =>
          cases hstar
          refine .inl ⟨body, rfl, ?_⟩
          obtain ⟨n, hreaches, hsame⟩ := Option.map_eq_some_iff.mp hlength
          obtain rfl : n = body.length := Nat.succ.inj hsame
          exact commentLength_eq_iff.mp hreaches
  · rintro (⟨body, rfl, hclosed⟩ | ⟨body, rfl, hinside, hline⟩)
    · exact stands_block hclosed r
    · exact stands_line hinside hline

/-! ### Gaps that are being read -/

theorem IsGap.append {s t : List Char} (h : IsGap s) (h' : IsGap t) : IsGap (s ++ t) := by
  induction h with
  | nil => exact h'
  | blank hblank h ih => exact .blank hblank ih
  | block hclosed h ih =>
      rw [List.cons_append, List.cons_append, List.append_assoc]
      exact .block hclosed ih
  | line hinside h ih =>
      rw [List.cons_append, List.cons_append, List.append_assoc]
      exact .line hinside ih

/-- In front of `r`, a gap that may end in a comment to the end of the line. -/
def GapBefore (r s : List Char) : Prop :=
  IsGap s ∨ (∃ gap body, s = gap ++ '-' :: '-' :: body ∧ IsGap gap ∧ '\n' ∉ body) ∧
    ∀ c ∈ r.head?, c = '\n'

theorem GapBefore.blank {s r : List Char} {c : Char} (h : GapBefore (c :: r) s)
    (hblank : isBlank c = true) : IsGap (s ++ [c]) := by
  obtain hgap | ⟨⟨gap, body, rfl, hgap, hinside⟩, hline⟩ := h
  · exact hgap.append (.blank hblank .nil)
  · obtain rfl : c = '\n' := hline c rfl
    rw [List.append_assoc]
    exact hgap.append (.line hinside .nil)

/-- Only a line break ends a comment to the end of the line. -/
theorem GapBefore.closed {s r : List Char} (h : GapBefore r s) {l : Lexeme} {t : List Char}
    (hstands : l.Stands t) (htext : r = l.text ++ t) (hvisible : l.kind ≠ .blank) : IsGap s := by
  obtain hgap | ⟨-, hline⟩ := h
  · exact hgap
  · obtain ⟨c, w, hfirst, -⟩ := id hstands
    obtain rfl : c = '\n' := hline c (by rw [htext, hfirst]; rfl)
    have halone := hstands.of_blank hfirst (by decide)
    exact absurd (congrArg Lexeme.kind halone) hvisible

/-! ### Tokens and gaps -/

/-- A text consists of tokens in order, with a gap in front of each, which may be empty if the token
is not set apart, and a gap behind the last. -/
inductive Covers : List Token → List Char → Prop
  | done {s : List Char} : GapBefore [] s → Covers [] s
  | token {gap rest : List Char} {t : Token} {ts : List Token} : IsGap gap → t.text ≠ [] →
      (t.spaced = true ↔ gap ≠ []) → Covers ts rest → Covers (t :: ts) (gap ++ (t.text ++ rest))

/-- Lexemes with a gap in front of them are covered by their tokens. -/
theorem Readable.covers {ls : List Lexeme} (hreadable : Readable ls) {gap : List Char}
    (hfront : GapBefore (textOf ls) gap) :
    Covers (tokensAfter (!gap.isEmpty) ls) (gap ++ textOf ls) := by
  induction ls generalizing gap with
  | nil =>
      rw [textOf, List.flatMap_nil, List.append_nil]
      exact .done hfront
  | cons l ls ih =>
      obtain ⟨hstands, hreadable⟩ := hreadable
      obtain ⟨kind, text⟩ := l
      obtain ⟨c, w, rfl, hfound⟩ := id hstands
      have hmore : (!(gap ++ c :: w).isEmpty) = true := by simp
      -- What is no token joins the gap, and the rest is read behind the longer gap.
      have hjoin : GapBefore (textOf ls) (gap ++ c :: w) →
          Covers (tokensAfter true ls) (gap ++ textOf (⟨kind, c :: w⟩ :: ls)) := by
        intro hfront'
        have hcovered := ih hreadable hfront'
        rwa [hmore, List.append_assoc] at hcovered
      cases kind with
      | blank =>
          obtain ⟨hblank, hlength⟩ := leading_blank_iff.mp hfound
          obtain rfl : w = [] := List.eq_nil_of_length_eq_zero hlength
          exact hjoin (.inl (hfront.blank hblank))
      | comment =>
          have hclosed := hfront.closed hstands rfl (by simp)
          refine hjoin ?_
          obtain ⟨body, htext, hwhole⟩ | ⟨body, htext, hinside, hline⟩ :=
            comment_stands_iff.mp hstands
          · have hblock := IsGap.block hwhole .nil
            rw [List.append_nil] at hblock
            exact .inl (hclosed.append (htext ▸ hblock))
          · exact .inr ⟨⟨gap, body, by rw [htext], hclosed, hinside⟩, hline⟩
      | token kind =>
          have hclosed := hfront.closed hstands rfl (by simp)
          exact .token hclosed (List.cons_ne_nil c w) (by simp) (ih hreadable (.inl .nil))

/-! ### Constructs that are never closed -/

/-- A quotation that is never closed is reported as what it would be if it were closed. -/
def Rule.ReportsKind : Rule → Prop
  | .quotation construct kind _ _ =>
    construct = .text ∧ kind = .text ∨ construct = .quotedName ∧ kind = .quotedName
  | _ => True

theorem ruleFor_reportsKind (c : Char) (r : List Char) : (ruleFor c r).ReportsKind := by
  unfold ruleFor
  repeat' apply ite_sees
  all_goals simp [Rule.ReportsKind]

/-- A construct of this kind opens in front and is never closed. -/
inductive Construct.OpensIn : Construct → List Char → Prop
  | text {opening s : List Char} : opening ∈ openings → quotedLength '\x27' s = none →
      OpensIn .text (opening ++ s)
  | quotedName {c close : Char} {s : List Char} : (c, close) ∈ quotations →
      quotedLength close s = none → OpensIn .quotedName (c :: s)
  | comment {s : List Char} : (∀ body, body <+: s → ¬ CommentBody body) →
      OpensIn .comment ('/' :: '*' :: s)

theorem opensIn_of_leading {c : Char} {r : List Char} {construct : Construct}
    (h : leading c r = .error construct) : construct.OpensIn (c :: r) := by
  have hsees := ruleFor_sees c r
  unfold leading at h
  cases hrule : ruleFor c r with
  | blockComment =>
      rw [hrule] at h hsees
      obtain ⟨rfl, hstar⟩ := hsees
      cases r with
      | nil => cases hstar
      | cons d s =>
          cases hstar
          cases hfound : commentLength 0 s with
          | some n => simp [Rule.read, hfound] at h
          | none =>
              obtain rfl : Construct.comment = construct := by simpa [Rule.read, hfound] using h
              refine .comment fun body hfront hcomplete => ?_
              obtain ⟨t, rfl⟩ := hfront
              rw [commentLength_eq_iff.mpr hcomplete] at hfound
              cases hfound
  | quotation known kind close skip =>
      rw [hrule] at h hsees
      cases hfound : quotedLength close (r.drop skip) with
      | some n => simp [Rule.read, hfound] at h
      | none =>
          obtain rfl : known = construct := by simpa [Rule.read, hfound] using h
          have hreports := ruleFor_reportsKind c r
          rw [hrule] at hreports
          obtain ⟨rfl, rfl⟩ | ⟨rfl, rfl⟩ := hreports
          · cases skip with
            | zero =>
                obtain ⟨-, rfl, rfl⟩ := hsees.resolve_right (fun hnamed => by cases hnamed.1)
                exact .text (by decide : ['\x27'] ∈ openings) hfound
            | succ skip =>
                obtain ⟨-, rfl, rfl, hletter, hquote⟩ := hsees
                cases r with
                | nil => cases hquote
                | cons d s =>
                    cases hquote
                    have hamong : [c, '\x27'] ∈ openings := by
                      rcases hletter with rfl | rfl <;> simp [openings]
                    exact .text hamong hfound
          · obtain ⟨hmarks, rfl⟩ := quotation_of_ruleFor hrule
            exact .quotedName hmarks hfound
  | _ => simp [hrule, Rule.read] at h

/-- A text that is refused starts with lexemes, and behind them the lexer finds none. -/
theorem exists_of_lexemesFrom_error {offset : Nat} {s : List Char} {e : Unclosed}
    (h : lexemesFrom offset s = .error e) :
    ∃ ls c r, s = textOf ls ++ c :: r ∧ ReadableBefore (c :: r) ls ∧
      leading c r = .error e.construct ∧ e.offset = offset + utf8Length (textOf ls) := by
  fun_induction lexemesFrom offset s with
  | case1 => cases h
  | case2 offset c r construct hfound =>
      cases h
      exact ⟨[], c, r, rfl, trivial, hfound, rfl⟩
  | case3 offset c r kind n hfound e' hlater ih =>
      cases h
      obtain ⟨ls, d, t, hrest, hfront, hfailed, hsame⟩ := ih hlater
      have hlength : (r.take n).length = n := by
        rw [List.length_take, Nat.min_eq_left (leading_le hfound)]
      refine ⟨⟨kind, c :: r.take n⟩ :: ls, d, t, ?_, ⟨⟨c, r.take n, rfl, ?_⟩, hfront⟩, hfailed, ?_⟩
      · rw [textOf_cons, List.append_assoc, ← hrest]
        exact congrArg (c :: ·) (List.take_append_drop n r).symm
      · rw [← hrest, List.take_append_drop, hlength]
        exact hfound
      · rw [hsame, textOf_cons, utf8Length_append, Nat.add_assoc]
  | case4 offset c r kind n hfound rest hlater ih => cases h

/-- Lexemes in front of a text are lexemes of their own text. -/
theorem ReadableBefore.alone {ls : List Lexeme} {s : List Char} (h : ReadableBefore s ls) :
    Readable ls := by
  have hcalm : Calmer s [] := Calmer.of_inert (by simp)
  exact readableBefore_nil_iff.mp (h.calmer hcalm fun _ c hc => by cases hc)

theorem tokens_eq_error_iff {s : List Char} {e : Unclosed} :
    tokens s = .error e ↔ lexemesFrom 0 s = .error e := by
  rw [tokens, lexemes]
  cases lexemesFrom 0 s <;> simp [Except.map]

/-- The lexer loses nothing. -/
theorem tokens_cover_text (s : List Char) :
    match tokens s with
    | .ok ts => Covers ts s
    | .error e => ∃ front rest, s = front ++ rest ∧
        e.offset = (String.ofList front).utf8ByteSize ∧ e.construct.OpensIn rest ∧
        ∃ ts, tokens front = .ok ts := by
  cases hfound : tokens s with
  | ok ts =>
      obtain ⟨ls, rfl, hreadable, rfl⟩ := tokens_eq_ok_iff.mp hfound
      exact hreadable.covers (.inl .nil)
  | error e =>
      obtain ⟨ls, c, r, rfl, hfront, hstops, hoffset⟩ :=
        exists_of_lexemesFrom_error (tokens_eq_error_iff.mp hfound)
      refine ⟨textOf ls, c :: r, rfl, ?_, opensIn_of_leading hstops, _,
        tokens_eq_ok_iff.mpr ⟨ls, rfl, hfront.alone, rfl⟩⟩
      rw [hoffset, Nat.zero_add, utf8Length_eq]

end DeadlockCapture.Sql
