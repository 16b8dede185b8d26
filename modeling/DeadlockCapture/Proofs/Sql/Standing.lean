import DeadlockCapture.Proofs.Sql.Runs

/-!
Lexemes in their surroundings. A lexeme stands before a text when the lexer, begun at the lexeme,
stops exactly at its end. A readable list of lexemes is one that the lexer finds again in its own
text.
-/

namespace DeadlockCapture.Sql

open DeadlockCapture.Text

/-- The lexer finds `l` in front of `rest`. -/
def Lexeme.Stands (l : Lexeme) (rest : List Char) : Prop :=
  ∃ c w, l.text = c :: w ∧ leading c (w ++ rest) = .ok (l.kind, w.length)

def textOf (ls : List Lexeme) : List Char :=
  ls.flatMap (·.text)

/-- Each lexeme stands before the text of those that follow it. -/
def Readable : List Lexeme → Prop
  | [] => True
  | l :: r => l.Stands (textOf r) ∧ Readable r

theorem textOf_cons (l : Lexeme) (ls : List Lexeme) : textOf (l :: ls) = l.text ++ textOf ls :=
  rfl

theorem textOf_append (ls ms : List Lexeme) : textOf (ls ++ ms) = textOf ls ++ textOf ms := by
  simp [textOf]

theorem stands_cons_iff {kind : LexemeKind} {c : Char} {w r : List Char} :
    Lexeme.Stands ⟨kind, c :: w⟩ r ↔ leading c (w ++ r) = .ok (kind, w.length) := by
  constructor
  · rintro ⟨d, v, htext, hfound⟩
    obtain ⟨rfl, rfl⟩ := List.cons.inj htext
    exact hfound
  · exact fun hfound => ⟨c, w, rfl, hfound⟩

theorem Readable.of_append {ls ms : List Lexeme} (h : Readable (ls ++ ms)) : Readable ms := by
  induction ls with
  | nil => exact h
  | cons l ls ih => exact ih h.2

/-! ### Rules -/

/-- What a rule sees where it applies. -/
def Rule.Sees (c : Char) (r : List Char) : Rule → Prop
  | .blank => isBlank c = true
  | .lineComment => c = '-' ∧ r.head? = some '-'
  | .blockComment => c = '/' ∧ r.head? = some '*'
  | .quotation _ token close 0 =>
    (token = .text ∧ c = '\x27' ∧ close = '\x27') ∨
      (token = .quotedName ∧ close ∈ [']', '"', '\x60'])
  | .quotation _ token close (skip + 1) =>
    token = .text ∧ skip = 0 ∧ close = '\x27' ∧ (c = 'N' ∨ c = 'n') ∧ r.head? = some '\x27'
  | .hexadecimal => c = '0' ∧ (r.head? = some 'x' ∨ r.head? = some 'X')
  | .decimal => c.isDigit = true
  | .fraction => c = '.' ∧ r.head?.any Char.isDigit = true
  | .namedVariable => (c = '@' ∨ c = ':') ∧ r.head?.any startsName = true
  | .globalVariable => c = '@' ∧ r.head? = some '@'
  | .placeholder => c = '?'
  | .money => c = '$' ∧ startsNumber r = true
  | .word => startsName c = true ∨ c = '$'
  | .mark => True

theorem ite_sees {p : Prop} [Decidable p] {a b : Rule} {S : Rule → Prop} (hfirst : p → S a)
    (hrest : S b) : S (if p then a else b) := by
  by_cases h : p
  · rw [if_pos h]
    exact hfirst h
  · rw [if_neg h]
    exact hrest

theorem ruleFor_sees (c : Char) (r : List Char) : (ruleFor c r).Sees c r := by
  unfold ruleFor
  refine ite_sees id ?_
  refine ite_sees id ?_
  refine ite_sees id ?_
  refine ite_sees (fun h => .inl ⟨rfl, h, rfl⟩) ?_
  refine ite_sees (fun h => ⟨rfl, rfl, rfl, h⟩) ?_
  refine ite_sees (fun _ => .inr ⟨rfl, by simp⟩) ?_
  refine ite_sees (fun h => .inr ⟨rfl, by simpa using .inr h⟩) ?_
  refine ite_sees id ?_
  refine ite_sees id ?_
  refine ite_sees id ?_
  refine ite_sees id ?_
  refine ite_sees id ?_
  refine ite_sees id ?_
  refine ite_sees id ?_
  exact ite_sees id trivial

theorem Rule.Sees.close {construct : Construct} {token : TokenKind} {close : Char} {skip : Nat}
    {c : Char} {r : List Char} (h : (Rule.quotation construct token close skip).Sees c r) :
    close ∈ ['\x27', ']', '"', '\x60'] := by
  cases skip with
  | zero =>
      rcases h with ⟨-, -, rfl⟩ | ⟨-, hamong⟩
      · exact List.mem_cons_self
      · exact List.mem_cons_of_mem _ hamong
  | succ skip => exact h.2.2.1 ▸ List.mem_cons_self

theorem ite_stable {p p' : Prop} [Decidable p] [Decidable p'] {a b b' : Rule} {S : Rule → Prop}
    (hsees : S (if p then a else b)) (hback : p' → p) (hkeeps : S a → p → p')
    (hrest : S b → b' = b) : (if p' then a else b') = if p then a else b := by
  by_cases h : p
  · rw [if_pos h] at hsees ⊢
    exact if_pos (hkeeps hsees h)
  · rw [if_neg h] at hsees ⊢
    rw [if_neg (mt hback h), hrest hsees]

/-- The rule stays the same in front of a calmer text, as long as it still sees what it needs. -/
theorem Calmer.ruleFor_eq {c : Char} {r r' : List Char} (h : Calmer r r')
    (hsees : (ruleFor c r).Sees c r') : ruleFor c r' = ruleFor c r := by
  have hname : r'.head?.any startsName = true → r.head?.any startsName = true := by
    intro hstarts
    obtain ⟨d, hd, hisName⟩ := (Option.any_eq_true _ _).mp hstarts
    have hplain : ¬ Inert d ∧ d.isDigit = false := by
      constructor
      · intro hinert
        simp [startsName_of_inert hinert] at hisName
      · cases hdigit : d.isDigit with
        | false => rfl
        | true => simp [startsName_of_isDigit hdigit] at hisName
    exact (Option.any_eq_true _ _).mpr ⟨d, h.mark hplain hd, hisName⟩
  unfold ruleFor at hsees ⊢
  apply ite_stable hsees id (fun _ => id)
  intro hsees
  apply ite_stable hsees (And.imp_right (h.mark (by decide))) (fun hnow _ => hnow)
  intro hsees
  apply ite_stable hsees (And.imp_right (h.mark (by decide))) (fun hnow _ => hnow)
  intro hsees
  apply ite_stable hsees id (fun _ => id)
  intro hsees
  apply ite_stable hsees (And.imp_right (h.mark (by decide))) (fun hnow _ => hnow.2.2.2)
  intro hsees
  apply ite_stable hsees id (fun _ => id)
  intro hsees
  apply ite_stable hsees id (fun _ => id)
  intro hsees
  apply ite_stable hsees
    (And.imp_right (Or.imp (h.mark (by decide)) (h.mark (by decide)))) (fun hnow _ => hnow)
  intro hsees
  apply ite_stable hsees id (fun _ => id)
  intro hsees
  apply ite_stable hsees (And.imp_right h.digit) (fun hnow _ => hnow)
  intro hsees
  apply ite_stable hsees (And.imp_right hname) (fun hnow _ => hnow)
  intro hsees
  apply ite_stable hsees (And.imp_right (h.mark (by decide))) (fun hnow _ => hnow)
  intro hsees
  apply ite_stable hsees id (fun _ => id)
  intro hsees
  apply ite_stable hsees (And.imp_right h.number) (fun hnow _ => hnow)
  intro hsees
  exact rfl

/-! ### Reading in front of a calmer text -/

theorem continuesName_of_startsName {c : Char} (h : startsName c = true) :
    continuesName c = true := by
  simp only [startsName, Bool.or_eq_true] at h
  simp only [continuesName, Bool.or_eq_true]
  grind

theorem read_quotation_iff {construct : Construct} {token : TokenKind} {close : Char} {skip : Nat}
    {w r : List Char} {kind : LexemeKind} :
    Rule.read (w ++ r) (.quotation construct token close skip) = .ok (kind, w.length) ↔
      kind = .token token ∧ skip ≤ w.length ∧
        quotedLength close (w.drop skip ++ r) = some (w.drop skip).length := by
  constructor
  · intro hread
    cases hfound : quotedLength close ((w ++ r).drop skip) with
    | none => simp [Rule.read, hfound] at hread
    | some n =>
        obtain ⟨rfl, hreaches⟩ : LexemeKind.token token = kind ∧ skip + n = w.length := by
          simpa [Rule.read, hfound] using hread
        have hshort : skip ≤ w.length := by omega
        rw [List.drop_append_of_le_length hshort] at hfound
        refine ⟨rfl, hshort, ?_⟩
        rw [hfound, List.length_drop]
        congr
        omega
  · rintro ⟨rfl, hshort, hfound⟩
    simp only [Rule.read, List.drop_append_of_le_length hshort, hfound, List.length_drop]
    congr
    omega

theorem read_blockComment_iff {w r : List Char} {kind : LexemeKind} :
    Rule.read (w ++ r) .blockComment = .ok (kind, w.length) ↔
      kind = .comment ∧ 1 ≤ w.length ∧ commentLength 0 (w.tail ++ r) = some w.tail.length := by
  cases w with
  | nil =>
      cases hfound : commentLength 0 r.tail <;> simp [Rule.read, hfound]
  | cons d t =>
      cases hfound : commentLength 0 (t ++ r) <;> simp [Rule.read, hfound, eq_comm]

/-- A rule that reads a token up to the end of `w` in front of `r` sees and reads the same in front
of a calmer text. -/
theorem Calmer.read_eq {c : Char} {w r r' : List Char} {rule : Rule} {kind : TokenKind}
    (h : Calmer r r') (hsees : rule.Sees c (w ++ r))
    (hread : rule.read (w ++ r) = .ok (.token kind, w.length)) :
    rule.Sees c (w ++ r') ∧ rule.read (w ++ r') = .ok (.token kind, w.length) := by
  cases rule with
  | blank => simp [Rule.read] at hread
  | lineComment => simp [Rule.read] at hread
  | blockComment =>
      cases (read_blockComment_iff.mp hread).1
  | quotation construct token close skip =>
      obtain ⟨hsame, hshort, hfound⟩ := read_quotation_iff.mp hread
      obtain ⟨hclosed, hstops⟩ := quotedLength_append_iff.mp hfound
      have hclosing : ∀ c ∈ ['\x27', ']', '"', '\x60'], ¬ Inert c ∧ c.isDigit = false :=
        forall_mem_of_all (by decide)
      have hstops' : close ∉ r'.head? := mt (h.mark (hclosing close hsees.close)) hstops
      refine ⟨?_, read_quotation_iff.mpr
        ⟨hsame, hshort, quotedLength_append_iff.mpr ⟨hclosed, hstops'⟩⟩⟩
      cases skip with
      | zero => exact hsees
      | succ skip =>
          cases w with
          | nil => cases hshort
          | cons d t => exact hsees
  | hexadecimal =>
      obtain ⟨rfl, hreaches⟩ : TokenKind.number = kind ∧
          1 + ((w ++ r).tail.takeWhile isHexDigit).length = w.length := by
        simpa [Rule.read] using hread
      cases w with
      | nil => simp at hreaches
      | cons d t =>
          have hrun : ((t ++ r).takeWhile isHexDigit).length = t.length := by
            simp at hreaches; omega
          have hsame := h.run isHexDigit_of_inert isHexDigit_of_isDigit hrun
          exact ⟨hsees, by simp [Rule.read, hsame]; omega⟩
  | decimal =>
      obtain ⟨rfl, hreaches⟩ : TokenKind.number = kind ∧ numberLength (w ++ r) = w.length := by
        simpa [Rule.read] using hread
      exact ⟨hsees, by simp [Rule.read, h.number_append hreaches]⟩
  | fraction =>
      obtain ⟨rfl, hreaches⟩ : TokenKind.number = kind ∧ decimalsLength (w ++ r) = w.length := by
        simpa [Rule.read] using hread
      have hsame := h.decimals_append hreaches
      cases w with
      | nil => exact absurd hreaches (Nat.ne_of_gt (decimalsLength_pos hsees.2))
      | cons d t => exact ⟨hsees, by simpa [Rule.read] using hsame⟩
  | namedVariable =>
      obtain ⟨rfl, hreaches⟩ : TokenKind.variable = kind ∧ nameRun (w ++ r) = w.length := by
        simpa [Rule.read] using hread
      have hsame := h.run continuesName_of_inert continuesName_of_isDigit hreaches
      cases w with
      | nil =>
          obtain ⟨d, hd, hstarts⟩ := (Option.any_eq_true _ _).mp hsees.2
          have hstops := (run_eq_length_iff.mp hreaches).2 d hd
          simp [continuesName_of_startsName hstarts] at hstops
      | cons d t => exact ⟨hsees, by simpa [Rule.read, nameRun] using hsame⟩
  | globalVariable =>
      obtain ⟨rfl, hreaches⟩ : TokenKind.variable = kind ∧
          1 + nameRun (w ++ r).tail = w.length := by
        simpa [Rule.read] using hread
      cases w with
      | nil => simp at hreaches
      | cons d t =>
          have hrun : nameRun (t ++ r) = t.length := by
            simp at hreaches; omega
          have hsame := h.run continuesName_of_inert continuesName_of_isDigit hrun
          exact ⟨hsees, by simp [Rule.read, nameRun, hsame]; omega⟩
  | placeholder => exact ⟨hsees, hread⟩
  | money =>
      obtain ⟨rfl, hreaches⟩ : TokenKind.number = kind ∧ numberLength (w ++ r) = w.length := by
        simpa [Rule.read] using hread
      exact ⟨⟨hsees.1, startsNumber_append hsees.2 hreaches r'⟩,
        by simp [Rule.read, h.number_append hreaches]⟩
  | word =>
      obtain ⟨rfl, hreaches⟩ : TokenKind.word = kind ∧ nameRun (w ++ r) = w.length := by
        simpa [Rule.read] using hread
      have hsame := h.run continuesName_of_inert continuesName_of_isDigit hreaches
      exact ⟨hsees, by simpa [Rule.read, nameRun] using hsame⟩
  | mark => exact ⟨hsees, hread⟩

/-- A token stands before every text that is calmer than the one it stands before. -/
theorem Lexeme.Stands.calmer {l : Lexeme} {kind : TokenKind} {r r' : List Char} (h : l.Stands r)
    (htoken : l.kind = .token kind) (hcalm : Calmer r r') : l.Stands r' := by
  obtain ⟨c, w, htext, hfound⟩ := h
  unfold leading at hfound
  rw [htoken] at hfound
  obtain ⟨hsees, hread⟩ := hcalm.read_eq (ruleFor_sees c (w ++ r)) hfound
  refine ⟨c, w, htext, ?_⟩
  rw [leading, (hcalm.append w).ruleFor_eq hsees, htoken]
  exact hread

/-! ### Gaps -/

theorem ruleFor_of_isBlank {c : Char} (h : isBlank c = true) (r : List Char) :
    ruleFor c r = .blank :=
  if_pos h

theorem ruleFor_line {r : List Char} (h : r.head? = some '-') : ruleFor '-' r = .lineComment := by
  rw [ruleFor, if_neg (by decide), if_pos ⟨rfl, h⟩]

theorem ruleFor_block {r : List Char} (h : r.head? = some '*') : ruleFor '/' r = .blockComment := by
  rw [ruleFor, if_neg (by decide), if_neg (by simp), if_pos ⟨rfl, h⟩]

theorem leading_blank_iff {c : Char} {r : List Char} {n : Nat} :
    leading c r = .ok (.blank, n) ↔ isBlank c = true ∧ n = 0 := by
  constructor
  · intro h
    have hsees := ruleFor_sees c r
    unfold leading at h
    cases hrule : ruleFor c r with
    | blank =>
        rw [hrule] at h hsees
        exact ⟨hsees, by simpa [Rule.read, eq_comm] using h⟩
    | blockComment =>
        cases hfound : commentLength 0 r.tail <;> simp [hrule, Rule.read, hfound] at h
    | quotation construct token close skip =>
        cases hfound : quotedLength close (r.drop skip) <;> simp [hrule, Rule.read, hfound] at h
    | _ => simp [hrule, Rule.read] at h
  · rintro ⟨hblank, rfl⟩
    rw [leading, ruleFor_of_isBlank hblank]
    rfl

theorem leading_comment_iff {c : Char} {r : List Char} {n : Nat} :
    leading c r = .ok (.comment, n) ↔
      (c = '-' ∧ r.head? = some '-' ∧ (r.takeWhile (· ≠ '\n')).length = n) ∨
        (c = '/' ∧ r.head? = some '*' ∧ (commentLength 0 r.tail).map (· + 1) = some n) := by
  constructor
  · intro h
    have hsees := ruleFor_sees c r
    unfold leading at h
    cases hrule : ruleFor c r with
    | lineComment =>
        rw [hrule] at h hsees
        exact .inl ⟨hsees.1, hsees.2, by simpa [Rule.read] using h⟩
    | blockComment =>
        rw [hrule] at h hsees
        refine .inr ⟨hsees.1, hsees.2, ?_⟩
        cases hfound : commentLength 0 r.tail <;> simp [Rule.read, hfound] at h
        simpa using h
    | quotation construct token close skip =>
        cases hfound : quotedLength close (r.drop skip) <;> simp [hrule, Rule.read, hfound] at h
    | _ => simp [hrule, Rule.read] at h
  · rintro (⟨rfl, hdash, rfl⟩ | ⟨rfl, hstar, hlength⟩)
    · rw [leading, ruleFor_line hdash]
      rfl
    · rw [leading, ruleFor_block hstar]
      cases hfound : commentLength 0 r.tail with
      | none => simp [hfound] at hlength
      | some m =>
          obtain rfl : m + 1 = n := by simpa [hfound] using hlength
          simp [Rule.read, hfound]

theorem stands_blank {c : Char} (h : isBlank c = true) (r : List Char) :
    Lexeme.Stands ⟨.blank, [c]⟩ r :=
  ⟨c, [], rfl, leading_blank_iff.mpr ⟨h, rfl⟩⟩

/-- A comment that goes on to the end of its line. -/
def Lexeme.RunsOn (l : Lexeme) : Prop :=
  l.kind = .comment ∧ l.text.head? = some '-'

/-- A lexeme stands before every text that is calmer than the one it stands before, and a comment
that goes on to the end of its line, if that text starts with a line break where the other does. -/
theorem Lexeme.Stands.across {l : Lexeme} {r r' : List Char} (h : l.Stands r) (hcalm : Calmer r r')
    (hlines : l.RunsOn → (∀ c ∈ r.head?, c = '\n') → ∀ c ∈ r'.head?, c = '\n') : l.Stands r' := by
  cases hkind : l.kind with
  | blank =>
      obtain ⟨c, w, htext, hfound⟩ := h
      rw [hkind, leading_blank_iff] at hfound
      exact ⟨c, w, htext, by rw [hkind, leading_blank_iff]; exact hfound⟩
  | comment =>
      obtain ⟨c, w, htext, hfound⟩ := h
      rw [hkind, leading_comment_iff] at hfound
      refine ⟨c, w, htext, ?_⟩
      rw [hkind, leading_comment_iff]
      rcases hfound with ⟨rfl, hdash, hrun⟩ | ⟨rfl, hstar, hlength⟩
      · left
        obtain ⟨hinside, hstops⟩ := run_eq_length_iff.mp hrun
        have hrunsOn : l.RunsOn := ⟨hkind, by rw [htext]; rfl⟩
        have hstops' : ∀ c ∈ r'.head?, decide (c ≠ '\n') = false := by
          simpa using hlines hrunsOn (by simpa using hstops)
        have hsame := run_eq_length_iff.mpr ⟨hinside, hstops'⟩
        cases w with
        | nil => exact absurd (hstops '-' hdash) (by decide)
        | cons d t => exact ⟨rfl, hdash, hsame⟩
      · right
        cases w with
        | nil => simp at hlength
        | cons d t =>
            refine ⟨rfl, hstar, ?_⟩
            obtain ⟨m, hfound, hlength⟩ := Option.map_eq_some_iff.mp hlength
            obtain rfl : m = t.length := by simpa using hlength
            have hsame := commentLength_append (w := t) hfound r'
            simp [hsame]
  | token token => exact h.calmer hkind hcalm

/-- A lexeme stands before every text that is calmer than the one it stands before and that starts
with a line break if the other does so. -/
theorem Lexeme.Stands.before {l : Lexeme} {r r' : List Char} (h : l.Stands r) (hcalm : Calmer r r')
    (hlines : (∀ c ∈ r.head?, c = '\n') → ∀ c ∈ r'.head?, c = '\n') : l.Stands r' :=
  h.across hcalm fun _ => hlines

/-! ### Quoted names -/

/-- The opening and the closing mark of each kind of quoted name. -/
def quotations : List (Char × Char) :=
  [('[', ']'), ('"', '"'), ('\x60', '\x60')]

theorem mem_of_quotations {c close : Char} (hmarks : (c, close) ∈ quotations) :
    c.isDigit = false ∧ ¬ Inert close ∧ close.isDigit = false := by
  simp only [quotations, List.mem_cons, Prod.mk.injEq, List.not_mem_nil, or_false] at hmarks
  rcases hmarks with ⟨rfl, rfl⟩ | ⟨rfl, rfl⟩ | ⟨rfl, rfl⟩ <;> decide

theorem ruleFor_quotation {c close : Char} (hmarks : (c, close) ∈ quotations) (r : List Char) :
    ruleFor c r = .quotation .quotedName .quotedName close 0 := by
  have hplain : isBlank '[' = false ∧ isBlank '"' = false ∧ isBlank '\x60' = false := by decide
  simp only [quotations, List.mem_cons, Prod.mk.injEq, List.not_mem_nil, or_false] at hmarks
  rcases hmarks with ⟨rfl, rfl⟩ | ⟨rfl, rfl⟩ | ⟨rfl, rfl⟩ <;> simp [ruleFor, hplain]

theorem quotation_of_ruleFor {c : Char} {r : List Char} {construct : Construct} {close : Char}
    {skip : Nat} (hrule : ruleFor c r = .quotation construct .quotedName close skip) :
    (c, close) ∈ quotations ∧ skip = 0 := by
  let Quotes (rule : Rule) : Prop :=
    rule = .quotation construct .quotedName close skip → (c, close) ∈ quotations ∧ skip = 0
  have hall : Quotes (ruleFor c r) := by
    unfold ruleFor
    repeat' apply ite_sees
    all_goals simp +contextual [Quotes, quotations]
    · rintro - - rfl -
      rfl
    · rintro hmark - rfl -
      exact .inr hmark
  exact hall hrule

/-- The quoted names before `r` are the quotations that no closing mark follows. -/
theorem quotedName_stands_iff {c : Char} {w r : List Char} :
    Lexeme.Stands ⟨.token .quotedName, c :: w⟩ r ↔
      ∃ close, (c, close) ∈ quotations ∧ quotedLength close w = some w.length ∧
        close ∉ r.head? := by
  rw [stands_cons_iff]
  constructor
  · intro hfound
    unfold leading at hfound
    cases hrule : ruleFor c (w ++ r) with
    | quotation construct token close skip =>
        rw [hrule, read_quotation_iff] at hfound
        obtain ⟨hsame, -, hclosed⟩ := hfound
        obtain rfl : TokenKind.quotedName = token := by simpa using hsame
        obtain ⟨hmarks, rfl⟩ := quotation_of_ruleFor hrule
        exact ⟨close, hmarks, quotedLength_append_iff.mp hclosed⟩
    | blockComment =>
        rw [hrule] at hfound
        cases (read_blockComment_iff.mp hfound).1
    | _ => simp [hrule, Rule.read] at hfound
  · rintro ⟨close, hmarks, hclosed⟩
    rw [leading, ruleFor_quotation hmarks, read_quotation_iff]
    exact ⟨rfl, Nat.zero_le _, quotedLength_append_iff.mpr hclosed⟩

/-! ### Finding lexemes again -/

theorem leading_le {c : Char} {r : List Char} {kind : LexemeKind} {n : Nat}
    (h : leading c r = .ok (kind, n)) : n ≤ r.length := by
  have hsees := ruleFor_sees c r
  have hnonempty : ∀ {d : Char}, r.head? = some d → 0 < r.length := by
    intro d hd
    cases r with
    | nil => cases hd
    | cons => exact Nat.succ_pos _
  unfold leading at h
  cases hrule : ruleFor c r with
  | lineComment =>
      simp only [hrule, Rule.read, Except.ok.injEq, Prod.mk.injEq] at h
      exact h.2 ▸ run_le _ r
  | blockComment =>
      rw [hrule] at h hsees
      cases hfound : commentLength 0 r.tail with
      | none => simp [Rule.read, hfound] at h
      | some m =>
          obtain ⟨-, rfl⟩ : LexemeKind.comment = kind ∧ m + 1 = n := by
            simpa [Rule.read, hfound] using h
          have hshort := commentLength_le hfound
          have hpos := hnonempty hsees.2
          simp only [List.length_tail] at hshort
          omega
  | quotation construct token close skip =>
      rw [hrule] at h hsees
      cases hfound : quotedLength close (r.drop skip) with
      | none => simp [Rule.read, hfound] at h
      | some m =>
          obtain ⟨-, rfl⟩ : LexemeKind.token token = kind ∧ skip + m = n := by
            simpa [Rule.read, hfound] using h
          have hshort := quotedLength_le hfound
          have hpos := quotedLength_pos hfound
          simp only [List.length_drop] at hshort
          omega
  | hexadecimal | globalVariable =>
      rw [hrule] at h hsees
      have hshort := run_le isHexDigit r.tail
      have hnamed := run_le continuesName r.tail
      simp only [Rule.read, nameRun, Except.ok.injEq, Prod.mk.injEq] at h
      simp only [List.length_tail] at hshort hnamed
      have hpos : 0 < r.length := by
        first
          | exact hnonempty hsees.2
          | exact hsees.2.elim hnonempty hnonempty
      omega
  | fraction =>
      have hrun := digitRun_le r
      have hexponent := exponentLength_le (r.drop (digitRun r))
      simp only [hrule, Rule.read, decimalsLength, Except.ok.injEq, Prod.mk.injEq] at h
      simp only [List.length_drop] at hexponent
      omega
  | decimal | money =>
      have hshort := numberLength_le r
      simp only [hrule, Rule.read, Except.ok.injEq, Prod.mk.injEq] at h
      exact h.2 ▸ hshort
  | namedVariable | word =>
      simp only [hrule, Rule.read, Except.ok.injEq, Prod.mk.injEq] at h
      exact h.2 ▸ run_le continuesName r
  | blank | placeholder | mark =>
      simp only [hrule, Rule.read, Except.ok.injEq, Prod.mk.injEq] at h
      omega

theorem lexemesFrom_cons (offset : Nat) (c : Char) (r : List Char) :
    lexemesFrom offset (c :: r) =
      match leading c r with
      | .error construct => .error ⟨construct, offset⟩
      | .ok (kind, n) =>
        (lexemesFrom (offset + utf8Length (c :: r.take n)) (r.drop n)).map
          (⟨kind, c :: r.take n⟩ :: ·) := by
  rw [lexemesFrom.eq_def]
  cases hfirst : leading c r with
  | error construct => simp only [hfirst]
  | ok found =>
      obtain ⟨kind, n⟩ := found
      simp only [hfirst]
      cases lexemesFrom (offset + utf8Length (c :: r.take n)) (r.drop n) <;> rfl

/-- The lexer finds a list of lexemes in a text exactly if the list is readable and makes it up. -/
theorem lexemesFrom_eq_ok_iff {offset : Nat} {s : List Char} {ls : List Lexeme} :
    lexemesFrom offset s = .ok ls ↔ textOf ls = s ∧ Readable ls := by
  induction ls generalizing offset s with
  | nil =>
      cases s with
      | nil => simp [lexemesFrom.eq_def, textOf, Readable]
      | cons c r =>
          have hmore : lexemesFrom offset (c :: r) ≠ .ok [] := by
            rw [lexemesFrom_cons]
            cases leading c r with
            | error construct => simp
            | ok found => simp [map_eq_ok_iff]
          simp [textOf, hmore]
  | cons l ls ih =>
      constructor
      · intro hfound
        cases s with
        | nil => simp [lexemesFrom.eq_def] at hfound
        | cons c r =>
            rw [lexemesFrom_cons] at hfound
            cases hfirst : leading c r with
            | error construct => simp [hfirst] at hfound
            | ok head =>
                obtain ⟨kind, n⟩ := head
                simp only [hfirst] at hfound
                obtain ⟨rest, hnext, hsame⟩ := map_eq_ok_iff.mp hfound
                obtain ⟨rfl, rfl⟩ : ⟨kind, c :: r.take n⟩ = l ∧ rest = ls := by
                  simpa using hsame
                obtain ⟨htext, hreadable⟩ := ih.mp hnext
                have hlength : (r.take n).length = n := by
                  rw [List.length_take, Nat.min_eq_left (leading_le hfirst)]
                refine ⟨?_, ⟨c, r.take n, rfl, ?_⟩, hreadable⟩
                · rw [textOf_cons, htext]
                  exact congrArg (c :: ·) (List.take_append_drop n r)
                · rw [htext, List.take_append_drop, hlength]
                  exact hfirst
      · rintro ⟨rfl, ⟨c, w, htext, hfirst⟩, hreadable⟩
        rw [textOf_cons, htext, List.cons_append, lexemesFrom_cons, hfirst]
        simp only [List.drop_left, List.take_left]
        rw [ih.mpr ⟨rfl, hreadable⟩, ← htext]
        rfl

theorem lexemes_eq_ok_iff {s : List Char} {ls : List Lexeme} :
    lexemes s = .ok ls ↔ textOf ls = s ∧ Readable ls :=
  lexemesFrom_eq_ok_iff

end DeadlockCapture.Sql
