import DeadlockCapture.Proofs.Sql.Composition
import DeadlockCapture.Proofs.Sql.Literals
import DeadlockCapture.Proofs.Sql.Metadata
import DeadlockCapture.Proofs.Sql.Settling

/-!
The length of lists. A list of literals after the word IN is shortened to its first item, whatever
stands around it, and no list of several placeholders is left.
-/

namespace DeadlockCapture.Sql

open DeadlockCapture.Text

variable {o : RedactionOptions}

/-! ### Lists of placeholders -/

/-- In front stands a number of placeholders, with commas between them and a closing parenthesis
after the last. -/
inductive ClosedList : Nat → List Token → Prop
  | last {item close : Token} {r : List Token} : item.text = placeholderText →
      close.text = [')'] → ClosedList 1 (item :: close :: r)
  | more {n : Nat} {item comma : Token} {r : List Token} : item.text = placeholderText →
      comma.text = [','] → ClosedList n r → ClosedList (n + 1) (item :: comma :: r)

theorem ClosedList.placeholderRun {n : Nat} {r : List Token} (h : ClosedList n r) :
    ∃ m, n = m + 1 ∧ placeholderRun r = some (2 * m + 1) := by
  induction h with
  | last hfirst hclosing => exact ⟨0, rfl, by simp [Sql.placeholderRun, hfirst, hclosing]⟩
  | more hfirst hcomma h ih =>
      obtain ⟨m, rfl, hrun⟩ := ih
      refine ⟨m + 1, rfl, ?_⟩
      simp [Sql.placeholderRun, hfirst, hcomma, hrun]
      omega

theorem ClosedList.surplus {n : Nat} {t opening : Token} {r : List Token} (h : ClosedList n r)
    (hin : t.IsIn) (hopens : opening.text = ['(']) :
    ∃ m, n = m + 1 ∧ surplus t (opening :: r) = some (2 * m) := by
  obtain ⟨m, hsame, hrun⟩ := h.placeholderRun
  refine ⟨m, hsame, ?_⟩
  rw [Sql.surplus, if_pos ⟨hin.1, hin.2, by simp [hopens]⟩, List.tail_cons, hrun]
  rfl

/-- After the word IN no list of several placeholders stands in parentheses. -/
def NoLongList (ts : List Token) : Prop :=
  ∀ t opening r n, t :: opening :: r <:+ ts → t.IsIn → opening.text = ['('] → ClosedList n r → n = 1

theorem Collapsed.suffix {us ts : List Token} (h : Collapsed ts) (hs : us <:+ ts) :
    Collapsed us := by
  obtain ⟨front, rfl⟩ := hs
  induction front with
  | nil => exact h
  | cons t front ih => exact ih h.2

theorem Collapsed.noLongList {ts : List Token} (h : Collapsed ts) : NoLongList ts := by
  intro t opening r n hs hin hopens hclosed
  obtain ⟨m, rfl, hfound⟩ := hclosed.surplus hin hopens
  have hnone := (h.suffix hs).1 (2 * m) hfound
  omega

/-! ### Lists in their surroundings -/

section Foreign

variable {t : Token} (hforeign : ∀ c ∈ listMarks, t.text ≠ [c])

include hforeign

theorem placeholderRun_append (ts ws : List Token) :
    placeholderRun (ts ++ t :: ws) = placeholderRun ts := by
  fun_induction placeholderRun ts with
  | case1 item next r hfirst hclosing => simp [placeholderRun, hfirst, hclosing]
  | case2 item next r hfirst hclosing hcomma ih => simp [placeholderRun, hfirst, hcomma, ih]
  | case3 item next r hfirst hclosing hcomma => simp [placeholderRun, hclosing, hcomma]
  | case4 item next r hfirst => simp [placeholderRun, hfirst]
  | case5 ts hshort =>
      have hitem := hforeign '?' (by decide)
      have hclose := hforeign ')' (by decide)
      have hcomma := hforeign ',' (by decide)
      obtain _ | ⟨u, _ | ⟨v, r⟩⟩ := ts
      · exact placeholderRun_of_ne hitem ws
      · simp [placeholderRun, hclose, hcomma]
      · exact absurd rfl (hshort u v r)

theorem surplus_append (u : Token) (r ws : List Token) :
    surplus u (r ++ t :: ws) = surplus u r := by
  cases r with
  | nil =>
      have hopening := hforeign '(' (by decide)
      simp [surplus, hopening]
  | cons v r => simp [surplus, placeholderRun_append hforeign]

/-- Shortening does not go past a token that is no mark of a list. -/
theorem collapseLists_append (us ws : List Token) :
    collapseLists (us ++ t :: ws) = collapseLists us ++ collapseLists (t :: ws) := by
  fun_induction collapseLists us with
  | case1 => rfl
  | case2 u r n hfound ih =>
      obtain ⟨-, -, -, -, -, close, q, hrest, -⟩ := surplus_some hfound
      have hlong : 2 + n < r.length := by
        rw [← List.drop_eq_nil_iff.not.trans Nat.not_le, hrest]
        exact List.cons_ne_nil close q
      rw [List.cons_append, collapseLists_cons, surplus_append hforeign, hfound]
      simp only
      rw [List.take_append_of_le_length (by omega), List.drop_append_of_le_length (by omega), ih]
      simp
  | case3 u r hfound ih =>
      rw [List.cons_append, collapseLists_cons, surplus_append hforeign, hfound]
      simp only
      rw [ih, List.cons_append]

end Foreign

/-! ### Kinds that do not show -/

/-- A token as a mark, unless it is a name. -/
def Token.asMark (t : Token) : Token :=
  if t.isName then t else { t with kind := .mark }

theorem text_asMark (t : Token) : t.asMark.text = t.text := by
  unfold Token.asMark
  split <;> rfl

theorem spaced_asMark (t : Token) : t.asMark.spaced = t.spaced := by
  unfold Token.asMark
  split <;> rfl

theorem upper_asMark (t : Token) : t.asMark.upper = t.upper := by
  rw [Token.upper, text_asMark, Token.upper]

theorem isName_asMark (t : Token) : t.asMark.isName = t.isName := by
  unfold Token.asMark
  split
  · rfl
  · rename_i hother
    rw [Bool.eq_false_iff.mpr hother]
    rfl

theorem isWord_asMark (t : Token) : t.asMark.kind = .word ↔ t.kind = .word := by
  unfold Token.asMark
  split
  · exact Iff.rfl
  · rename_i hother
    refine iff_of_false (by simp) fun hword => hother ?_
    simp [Token.isName, hword]

theorem render_map_asMark (ps : List Token) : render (ps.map Token.asMark) = render ps := by
  have hrest : ∀ ps : List Token, renderRest (ps.map Token.asMark) = renderRest ps := by
    intro ps
    simp only [renderRest, List.flatMap_map, text_asMark, spaced_asMark]
  cases ps with
  | nil => rfl
  | cons p ps => rw [List.map_cons, render, render, text_asMark, hrest]

theorem verbsOf_map_asMark (ps : List Token) : verbsOf (ps.map Token.asMark) = verbsOf ps := by
  have hsame : verb? ∘ Token.asMark = verb? := by
    funext t
    simp only [Function.comp_apply, verb?, isWord_asMark, upper_asMark]
  rw [verbsOf, List.filterMap_map, hsame]
  rfl

theorem dottedParts_map_asMark (ps : List Token) :
    dottedParts (ps.map Token.asMark) = dottedParts ps := by
  fun_induction dottedParts ps with
  | case1 dot part r hjoined ih =>
      simp only [List.map_cons, dottedParts, text_asMark, spaced_asMark, isName_asMark,
        if_pos hjoined, ih]
  | case2 dot part r hapart =>
      simp only [List.map_cons, dottedParts, text_asMark, spaced_asMark, isName_asMark,
        if_neg hapart]
  | case3 ps hshort =>
      obtain _ | ⟨t, _ | ⟨u, r⟩⟩ := ps
      · rfl
      · rfl
      · exact absurd rfl (hshort t u r)

theorem tableName?_map_asMark (ps : List Token) :
    tableName? (ps.map Token.asMark) = tableName? ps := by
  cases ps with
  | nil => rfl
  | cons first r =>
      have hword : (first.asMark.kind == .word) = (first.kind == .word) := by
        rw [Bool.eq_iff_iff, beq_iff_eq, beq_iff_eq]
        exact isWord_asMark first
      simp only [List.map_cons, tableName?, isName_asMark, upper_asMark, text_asMark, hword,
        dottedParts_map_asMark]

theorem tablesOf_map_asMark (ps : List Token) : tablesOf (ps.map Token.asMark) = tablesOf ps := by
  induction ps with
  | nil => rfl
  | cons t r ih =>
      simp only [List.map_cons, tablesOf, isWord_asMark, upper_asMark, tableName?_map_asMark, ih]

/-- The normal form sees the kinds of names only. -/
theorem ofPieces_map_asMark (o : RedactionOptions) (ps : List Token) :
    Normalized.ofPieces o (ps.map Token.asMark) = Normalized.ofPieces o ps := by
  simp only [Normalized.ofPieces, render_map_asMark, verbsOf_map_asMark, tablesOf_map_asMark]

/-! ### The text of a list -/

/-- An item of a list: a text with its quotes doubled, digits or a placeholder. -/
inductive Lexeme.IsItem : Lexeme → Prop
  | text {opening body : List Char} : opening ∈ openings → QuotesDoubled body →
      IsItem ⟨.token .text, opening ++ body ++ ['\x27']⟩
  | number {digits : List Char} : digits ≠ [] → (∀ c ∈ digits, c.isDigit = true) →
      IsItem ⟨.token .number, digits⟩
  | placeholder : IsItem ⟨.token .placeholder, placeholderText⟩

/-- The word IN and a list of items in parentheses. -/
def listText (items : List Lexeme) : List Char :=
  " IN (".toList ++ [',', ' '].intercalate (items.map (·.text)) ++ [')']

/-- What follows an item: the items after it and the closing parenthesis. -/
def afterItem : List Lexeme → List Lexeme
  | [] => [⟨.token .mark, [')']⟩]
  | item :: r => ⟨.token .mark, [',']⟩ :: ⟨.blank, [' ']⟩ :: item :: afterItem r

def listLexemes (first : Lexeme) (others : List Lexeme) : List Lexeme :=
  ⟨.blank, [' ']⟩ :: ⟨.token .word, ['I', 'N']⟩ :: ⟨.blank, [' ']⟩ :: ⟨.token .mark, ['(']⟩ ::
    first :: afterItem others

theorem textOf_afterItem (first : Lexeme) (others : List Lexeme) :
    first.text ++ textOf (afterItem others) =
      [',', ' '].intercalate ((first :: others).map (·.text)) ++ [')'] := by
  induction others generalizing first with
  | nil => simp [afterItem, textOf, List.intercalate]
  | cons item r ih =>
      simp only [afterItem, textOf_cons, ih]
      simp [List.intercalate]

theorem textOf_listLexemes (first : Lexeme) (others : List Lexeme) :
    textOf (listLexemes first others) = listText (first :: others) := by
  have hopens : textOf (listLexemes first others) =
      " IN (".toList ++ (first.text ++ textOf (afterItem others)) := rfl
  rw [hopens, textOf_afterItem, ← List.append_assoc]
  rfl

theorem stands_mark {c : Char} (hmark : c ∈ ['(', ')', ',']) (r : List Char) :
    Lexeme.Stands ⟨.token .mark, [c]⟩ r := by
  have hplain : isBlank '(' = false ∧ isBlank ')' = false ∧ isBlank ',' = false := by decide
  have hname : startsName '(' = false ∧ startsName ')' = false ∧ startsName ',' = false := by decide
  have hrule : ruleFor c r = .mark := by
    simp only [List.mem_cons, List.not_mem_nil, or_false] at hmark
    rcases hmark with rfl | rfl | rfl <;> simp [ruleFor, hplain, hname]
  rw [stands_cons_iff, leading, List.nil_append, hrule]
  rfl

theorem stands_in (r : List Char) : Lexeme.Stands ⟨.token .word, ['I', 'N']⟩ (' ' :: r) :=
  ⟨'I', ['N'], rfl, rfl⟩

theorem Lexeme.IsItem.stands {l : Lexeme} (h : l.IsItem) {r : List Char}
    (hends : ∃ c ∈ [',', ')'], r.head? = some c) : l.Stands r := by
  obtain ⟨c, hmark, hhead⟩ := hends
  have hplain : ∀ c ∈ [',', ')'], c.isDigit = false ∧ c ∉ ['\x27', '.', 'e', 'E', 'x', 'X'] :=
    forall_mem_of_all (by decide)
  obtain ⟨hdigit, hother⟩ := hplain c hmark
  simp only [List.mem_cons, List.not_mem_nil, or_false, not_or] at hother
  cases h with
  | text hamong hdoubled =>
      refine (text_stands_iff hamong).mpr ⟨quotedLength_of_doubled hdoubled, ?_⟩
      simp [hhead, hother]
  | number hsome hall =>
      have hnone : numberLength r = 0 := by
        rw [numberLength_of_not (by simp [hhead, hdigit]),
          scaleLength_of_not (by simp [hhead, hother])]
        cases r with
        | nil => cases hhead
        | cons d r =>
            obtain rfl : d = c := by simpa using hhead
            simp [exponentLength, hother]
      exact (digits_stand_iff hsome hall).mpr ⟨hnone, by simp [hhead, hother]⟩
  | placeholder =>
      exact stands_placeholder (t := ⟨.placeholder, placeholderText, false⟩) rfl rfl r

theorem head_afterItem (others : List Lexeme) (s : List Char) :
    ∃ c ∈ [',', ')'], (textOf (afterItem others) ++ s).head? = some c := by
  cases others with
  | nil => exact ⟨')', by decide, rfl⟩
  | cons item r => exact ⟨',', by decide, rfl⟩

theorem readableBefore_afterItem {others : List Lexeme} (hitems : ∀ i ∈ others, i.IsItem)
    (s : List Char) : ReadableBefore s (afterItem others) := by
  induction others with
  | nil => exact ⟨stands_mark (by decide) _, trivial⟩
  | cons item r ih =>
      obtain ⟨hfirst, hrest⟩ := List.forall_mem_cons.mp hitems
      exact ⟨stands_mark (by decide) _, stands_blank (by decide) _,
        hfirst.stands (head_afterItem r s), ih hrest⟩

theorem readableBefore_listLexemes {first : Lexeme} {others : List Lexeme}
    (hitems : ∀ i ∈ first :: others, i.IsItem) (s : List Char) :
    ReadableBefore s (listLexemes first others) := by
  obtain ⟨hitem, hrest⟩ := List.forall_mem_cons.mp hitems
  exact ⟨stands_blank (by decide) _, stands_in _, stands_blank (by decide) _,
    stands_mark (by decide) _, hitem.stands (head_afterItem others s),
    readableBefore_afterItem hrest s⟩

/-! ### The tokens of a list -/

theorem Lexeme.IsItem.token {l : Lexeme} (h : l.IsItem) :
    ∃ kind, l = ⟨.token kind, l.text⟩ ∧ ∀ (o : RedactionOptions) gap,
      (o.redact ⟨kind, l.text, gap⟩).asMark = ⟨.mark, placeholderText, gap⟩ := by
  cases h with
  | text => exact ⟨.text, rfl, fun _ _ => rfl⟩
  | number => exact ⟨.number, rfl, fun _ _ => rfl⟩
  | placeholder => exact ⟨.placeholder, rfl, fun _ _ => rfl⟩

theorem redact_in (o : RedactionOptions) (gap : Bool) :
    o.redact ⟨.word, ['I', 'N'], gap⟩ = ⟨.word, ['I', 'N'], gap⟩ := by
  have hvalue : o.isLiteralWord ⟨.word, ['I', 'N'], gap⟩ = false := by
    have hothers : ∀ word ∈ ["NULL", "TRUE", "FALSE"],
        Token.spells ⟨.word, ['I', 'N'], gap⟩ word = false := by
      intro word hamong
      simp only [List.mem_cons, List.not_mem_nil, or_false] at hamong
      rcases hamong with rfl | rfl | rfl <;> rfl
    simp [RedactionOptions.isLiteralWord, hothers]
  have hdigits : replaceDigitRuns ['I', 'N'] = ['I', 'N'] := rfl
  simp [RedactionOptions.redact, RedactionOptions.redactedText, hvalue, hdigits]

/-- The redacted items of a list, up to the parenthesis that closes it. -/
theorem closedList_items {others : List Lexeme} (hitems : ∀ i ∈ others, i.IsItem)
    (ms : List Lexeme) {item : Token} (hhidden : item.text = placeholderText) :
    ClosedList (others.length + 1)
        (item :: (tokensAfter false (afterItem others ++ ms)).map o.redact) ∧
      (item :: (tokensAfter false (afterItem others ++ ms)).map o.redact).drop
          (2 * others.length + 1) =
        ⟨.mark, [')'], false⟩ :: (tokensAfter false ms).map o.redact := by
  induction others generalizing item with
  | nil => exact ⟨.last hhidden rfl, rfl⟩
  | cons next r ih =>
      obtain ⟨hfirst, hrest⟩ := List.forall_mem_cons.mp hitems
      obtain ⟨kind, hwhole, hredacted⟩ := hfirst.token
      have htext : (o.redact ⟨kind, next.text, true⟩).text = placeholderText := by
        rw [← text_asMark, hredacted]
      have htokens : (tokensAfter false (afterItem (next :: r) ++ ms)).map o.redact =
          ⟨.mark, [','], false⟩ :: o.redact ⟨kind, next.text, true⟩ ::
            (tokensAfter false (afterItem r ++ ms)).map o.redact := by
        rw [hwhole]
        rfl
      obtain ⟨hclosed, hlast⟩ := ih hrest htext
      rw [htokens]
      exact ⟨.more hhidden rfl hclosed, hlast⟩

/-- What is left of a statement with a list in it does not depend on the items. -/
theorem pieces_list (hlists : o.collapseLists = true) {first : Lexeme} {others : List Lexeme}
    (hitems : ∀ i ∈ first :: others, i.IsItem) (ls ms : List Lexeme) :
    (o.pieces (tokensAfter false (ls ++ (listLexemes first others ++ ms)))).map Token.asMark =
      (collapseLists ((tokensAfter false ls).map o.redact)).map Token.asMark ++
        ⟨.word, ['I', 'N'], true⟩ :: ⟨.mark, ['('], true⟩ :: ⟨.mark, placeholderText, false⟩ ::
          (collapseLists
            (⟨.mark, [')'], false⟩ :: (tokensAfter false ms).map o.redact)).map Token.asMark := by
  obtain ⟨hitem, hrest⟩ := List.forall_mem_cons.mp hitems
  obtain ⟨kind, hwhole, hredacted⟩ := hitem.token
  have hhidden : (o.redact ⟨kind, first.text, false⟩).text = placeholderText := by
    rw [← text_asMark, hredacted]
  have htokens : (tokensAfter false (ls ++ (listLexemes first others ++ ms))).map o.redact =
      (tokensAfter false ls).map o.redact ++ ⟨.word, ['I', 'N'], true⟩ :: ⟨.mark, ['('], true⟩ ::
        o.redact ⟨kind, first.text, false⟩ ::
          (tokensAfter false (afterItem others ++ ms)).map o.redact := by
    have hlist : (tokensAfter true (listLexemes first others ++ ms).tail).map o.redact =
        ⟨.word, ['I', 'N'], true⟩ :: ⟨.mark, ['('], true⟩ ::
          o.redact ⟨kind, first.text, false⟩ ::
            (tokensAfter false (afterItem others ++ ms)).map o.redact := by
      rw [← redact_in o true, listLexemes, hwhole]
      rfl
    rw [← hlist, ← List.map_append]
    exact congrArg _ (tokensAfter_append_blank false ls _)
  have hforeign : ∀ c ∈ listMarks, (['I', 'N'] : List Char) ≠ [c] := forall_mem_of_all (by decide)
  have hin (gap : Bool) : Token.IsIn ⟨.word, ['I', 'N'], gap⟩ := ⟨rfl, rfl⟩
  obtain ⟨hclosed, hlast⟩ := closedList_items (o := o) hrest ms hhidden
  have hopens : (⟨.mark, ['('], true⟩ : Token).text = ['('] := rfl
  obtain ⟨m, hsame, hfound⟩ := hclosed.surplus (hin true) hopens
  obtain rfl : others.length = m := by omega
  have hafter : 2 + 2 * others.length = 2 * others.length + 1 + 1 := by omega
  rw [RedactionOptions.pieces, htokens]
  simp only [hlists, if_true]
  rw [collapseLists_append hforeign, collapseLists_cons, hfound]
  simp only
  have hword : (⟨.word, ['I', 'N'], true⟩ : Token).asMark = ⟨.word, ['I', 'N'], true⟩ := rfl
  have hmark : (⟨.mark, ['('], true⟩ : Token).asMark = ⟨.mark, ['('], true⟩ := rfl
  rw [hafter, List.drop_succ_cons, hlast, List.map_append, List.map_cons, hword]
  simp only [List.take_succ_cons, List.take_zero, List.cons_append, List.nil_append,
    List.map_cons, hmark, hredacted]

/-! ### Other lists -/

/-- Other items in a list, more of them or fewer, do not show in the normal form. -/
theorem normalize_other_list (hlists : o.collapseLists = true) {before after : List Char}
    {ls items items' : List Lexeme} (hfound : lexemes before = .ok ls)
    (hclosed : ∀ l ∈ ls.getLast?, ¬ l.RunsOn) (hsome : items ≠ []) (hsome' : items' ≠ [])
    (hall : ∀ i ∈ items, i.IsItem) (hall' : ∀ i ∈ items', i.IsItem) {ts : List Token}
    (hdivided : tokens (before ++ listText items ++ after) = .ok ts) :
    o.normalize (String.ofList (before ++ listText items ++ after)) =
      o.normalize (String.ofList (before ++ listText items' ++ after)) := by
  obtain ⟨first, others, rfl⟩ := List.exists_cons_of_ne_nil hsome
  obtain ⟨first', others', rfl⟩ := List.exists_cons_of_ne_nil hsome'
  obtain ⟨rfl, hreadable⟩ := lexemes_eq_ok_iff.mp hfound
  -- The lexemes in front of a list and those of the list stand before whatever follows.
  have hfront : ∀ {first others}, (∀ i ∈ first :: others, i.IsItem) →
      ReadableBefore after (ls ++ listLexemes first others) := by
    intro first others hitems
    refine readableBefore_append.mpr ⟨hreadable.before (Calmer.of_inert ?_) hclosed,
      readableBefore_listLexemes hitems after⟩
    rintro c ⟨⟩
    exact .inl (by decide)
  have hwhole : ∀ first others, textOf ls ++ listText (first :: others) ++ after =
      textOf (ls ++ listLexemes first others) ++ after := by
    intro first others
    rw [textOf_append, textOf_listLexemes]
  obtain ⟨ns, hfound, rfl⟩ := map_eq_ok_iff.mp hdivided
  rw [hwhole, lexemes_append_eq_ok_iff (hfront hall)] at hfound
  obtain ⟨ms, rfl, htext, hrest⟩ := hfound
  have hform : ∀ {first others}, (∀ i ∈ first :: others, i.IsItem) →
      o.normalize (String.ofList (textOf ls ++ listText (first :: others) ++ after)) =
        .ofPieces o (o.pieces (tokensAfter false (ls ++ (listLexemes first others ++ ms)))) := by
    intro first others hitems
    apply normalize_of_tokens
    rw [String.toList_ofList, hwhole, tokens,
      (lexemes_append_eq_ok_iff (hfront hitems)).mpr ⟨ms, rfl, htext, hrest⟩, List.append_assoc]
    rfl
  rw [hform hall, hform hall', ← ofPieces_map_asMark, ← ofPieces_map_asMark o (o.pieces _),
    pieces_list hlists hall, pieces_list hlists hall']

/-- The length of a list does not show: lists of other literals give the same normal form, and none
of several placeholders is left. -/
theorem list_length_does_not_show (hlists : o.collapseLists = true) :
    (∀ {before after : List Char} {ls items items' : List Lexeme}, lexemes before = .ok ls →
      (∀ l ∈ ls.getLast?, ¬ l.RunsOn) → items ≠ [] → items' ≠ [] → (∀ i ∈ items, i.IsItem) →
      (∀ i ∈ items', i.IsItem) →
      (∃ ts, tokens (before ++ listText items ++ after) = .ok ts) →
      o.normalize (String.ofList (before ++ listText items ++ after)) =
        o.normalize (String.ofList (before ++ listText items' ++ after))) ∧
    ∀ x ts, tokens (statementOf x) = .ok ts → NoLongList (o.pieces ts) := by
  constructor
  · rintro before after ls items items' hfound hclosed hsome hsome' hall hall' ⟨ts, hdivided⟩
    exact normalize_other_list hlists hfound hclosed hsome hsome' hall hall' hdivided
  · intro x ts _
    apply Collapsed.noLongList
    rw [← collapseLists_eq_self_iff, RedactionOptions.pieces]
    simp only [hlists, if_true]
    exact collapseLists_collapseLists _

def twoItems : List Lexeme :=
  [⟨.token .number, ['1']⟩, ⟨.token .text, ['\x27'] ++ ['b'] ++ ['\x27']⟩]

def twoItemTokens : List Token :=
  [⟨.word, ['a'], false⟩, ⟨.word, ['I', 'N'], true⟩, ⟨.mark, ['('], true⟩,
    ⟨.number, ['1'], false⟩, ⟨.mark, [','], false⟩, ⟨.text, ['\x27', 'b', '\x27'], true⟩,
    ⟨.mark, [')'], false⟩]

theorem list_length_does_not_show_sample :
    (({} : RedactionOptions).collapseLists = true ∧
      (∃ ts, tokens ("a".toList ++ listText twoItems ++ "".toList) = .ok ts) ∧
      tokens (statementOf "a IN (1, 'b')") = .ok twoItemTokens) ∧
    RedactionOptions.normalize {} "a IN (1, 'b')" = RedactionOptions.normalize {} "a IN (?)" ∧
      NoLongList (RedactionOptions.pieces {} twoItemTokens) := by
  have hgeneral := list_length_does_not_show (o := {}) rfl
  have hnumber : Lexeme.IsItem ⟨.token .number, ['1']⟩ :=
    .number (by decide) (forall_mem_of_all (by decide))
  have htext : Lexeme.IsItem ⟨.token .text, ['\x27'] ++ ['b'] ++ ['\x27']⟩ :=
    .text (by decide) (.other (by decide) .nil)
  have hitems := List.forall_mem_cons.mpr ⟨hnumber, List.forall_mem_singleton.mpr htext⟩
  have hstands (r : List Char) : Lexeme.Stands ⟨.token .word, ['a']⟩ (' ' :: r) :=
    ⟨'a', [], rfl, rfl⟩
  have hfront : lexemes "a".toList = .ok [⟨.token .word, ['a']⟩] :=
    lexemes_eq_ok_iff.mpr ⟨rfl, ⟨'a', [], rfl, rfl⟩, trivial⟩
  have hdivided : tokens ("a".toList ++ listText twoItems ++ "".toList) = .ok twoItemTokens := by
    have hlist := readableBefore_listLexemes hitems []
    have hbefore : ReadableBefore (textOf []) (_ :: listLexemes _ _) := ⟨hstands _, hlist⟩
    have hreadable := readable_append_iff.mpr ⟨hbefore, (trivial : Readable [])⟩
    exact tokens_eq_ok_iff.mpr ⟨_, rfl, hreadable, rfl⟩
  have hmany : "a IN (1, 'b')" = String.ofList ("a".toList ++ listText twoItems ++ "".toList) := by
    decide +kernel
  have hone : "a IN (?)" = String.ofList ("a".toList ++ listText
      [⟨.token .placeholder, placeholderText⟩] ++ "".toList) := by decide +kernel
  have hstatement : statementOf "a IN (1, 'b')" =
      "a".toList ++ listText twoItems ++ "".toList := by decide +kernel
  have htokens : tokens (statementOf "a IN (1, 'b')") = .ok twoItemTokens := by
    rw [hstatement, hdivided]
  refine ⟨⟨rfl, ⟨_, hdivided⟩, htokens⟩, ?_, hgeneral.2 "a IN (1, 'b')" _ htokens⟩
  rw [hmany, hone]
  exact hgeneral.1 hfront (by simp [Lexeme.RunsOn]) (by simp [twoItems]) (by simp) hitems
      (List.forall_mem_singleton.mpr .placeholder) ⟨_, hdivided⟩

end DeadlockCapture.Sql
