import DeadlockCapture.Proofs.Sql.Legibility

/-!
Statements that differ in one literal. A literal may be replaced where it stands: the lexemes before
it and after it are found again, and redaction hides what has changed.
-/

namespace DeadlockCapture.Sql

open DeadlockCapture.Text

/-! ### One lexeme for another -/

/-- What lexemes in front of `r` see of it, they see of `r'` as well. -/
structure Alike (r r' : List Char) : Prop where
  calmer : Calmer r r'
  line : (∀ c ∈ r.head?, c = '\n') → ∀ c ∈ r'.head?, c = '\n'

theorem Alike.append {r r' : List Char} (h : Alike r r') (w : List Char) :
    Alike (w ++ r) (w ++ r') := by
  refine ⟨h.calmer.append w, ?_⟩
  cases w with
  | nil => exact h.line
  | cons c w => exact id

theorem Readable.replace {before after : List Lexeme} {l l' : Lexeme}
    (hreadable : Readable (before ++ l :: after)) (hstands : l'.Stands (textOf after))
    (halike : Alike (l.text ++ textOf after) (l'.text ++ textOf after)) :
    Readable (before ++ l' :: after) := by
  induction before with
  | nil => exact ⟨hstands, hreadable.2⟩
  | cons b before ih =>
      obtain ⟨hfirst, hrest⟩ : b.Stands (textOf (before ++ l :: after)) ∧
        Readable (before ++ l :: after) := hreadable
      have hseen := halike.append (textOf before)
      rw [← textOf_cons, ← textOf_cons, ← textOf_append, ← textOf_append] at hseen
      exact ⟨hfirst.before hseen.calmer hseen.line, ih hrest⟩

theorem tokensAfter_replace {o : RedactionOptions} {kind : TokenKind} {text text' : List Char}
    (hsame : ∀ gap, o.redact ⟨kind, text, gap⟩ = o.redact ⟨kind, text', gap⟩)
    (before after : List Lexeme) (gap : Bool) :
    (tokensAfter gap (before ++ ⟨.token kind, text⟩ :: after)).map o.redact =
      (tokensAfter gap (before ++ ⟨.token kind, text'⟩ :: after)).map o.redact := by
  induction before generalizing gap with
  | nil => exact congrArg (· :: _) (hsame gap)
  | cons b before ih =>
      obtain ⟨kind', text'⟩ := b
      cases kind' with
      | blank => exact ih true
      | comment => exact ih true
      | token kind' => exact congrArg (_ :: ·) (ih false)

theorem alike_of_quiet {c : Char} (h : Quiet c) (r r' : List Char) :
    Alike (c :: r) (c :: r') where
  calmer := Calmer.of_quiet fun d hd => by
    obtain rfl : c = d := by simpa using hd
    exact ⟨h, .inl rfl⟩
  line := id

theorem alike_of_digits {c d : Char} (hc : c.isDigit = true) (hd : d.isDigit = true)
    (r r' : List Char) : Alike (c :: r) (d :: r') where
  calmer := Calmer.of_digits hc hd r r'
  line := by
    intro hline
    have hdigit : c = '\n' := hline c rfl
    rw [hdigit] at hc
    exact absurd hc (by decide)

/-- A token may be replaced where it stands by one that redaction makes the same of. -/
theorem normalize_replace {o : RedactionOptions} {x : String} {before after : List Lexeme}
    {kind : TokenKind} {text text' : List Char}
    (hfound : lexemes x.toList = .ok (before ++ ⟨.token kind, text⟩ :: after))
    (hstands : Lexeme.Stands ⟨.token kind, text'⟩ (textOf after))
    (halike : Alike (text ++ textOf after) (text' ++ textOf after))
    (hsame : ∀ gap, o.redact ⟨kind, text, gap⟩ = o.redact ⟨kind, text', gap⟩) :
    o.normalize (String.ofList (textOf before ++ text' ++ textOf after)) = o.normalize x := by
  obtain ⟨hwhole, hreadable⟩ := lexemes_eq_ok_iff.mp hfound
  have hreplaced := hreadable.replace hstands halike
  have hwhole' : textOf (before ++ ⟨.token kind, text'⟩ :: after) =
      textOf before ++ text' ++ textOf after := by
    rw [textOf_append, textOf_cons, List.append_assoc]
  rw [normalize_of_tokens (tokens_eq_ok_iff.mpr ⟨_, hwhole, hreadable, rfl⟩),
    normalize_of_tokens (x := String.ofList _)
      (tokens_eq_ok_iff.mpr ⟨_, hwhole'.trans String.toList_ofList.symm, hreplaced, rfl⟩)]
  simp only [RedactionOptions.pieces, tokensAfter_replace hsame before after false]

/-! ### Text literals -/

inductive QuotesDoubled : List Char → Prop
  | nil : QuotesDoubled []
  | quote {r : List Char} : QuotesDoubled r → QuotesDoubled ('\x27' :: '\x27' :: r)
  | other {c : Char} {r : List Char} : c ≠ '\x27' → QuotesDoubled r → QuotesDoubled (c :: r)

theorem quotedLength_of_doubled {b : List Char} (h : QuotesDoubled b) :
    quotedLength '\x27' (b ++ ['\x27']) = some (b.length + 1) := by
  induction h with
  | nil => rfl
  | quote h ih => simp [quotedLength, ih]
  | other hplain h ih => rw [List.cons_append, quotedLength_cons hplain (by simp), ih]; rfl

def openings : List (List Char) :=
  [['\x27'], ['N', '\x27'], ['n', '\x27']]

theorem ruleFor_quote (r : List Char) : ruleFor '\x27' r = .quotation .text .text '\x27' 0 := by
  have hplain : isBlank '\x27' = false := by decide
  simp [ruleFor, hplain]

theorem ruleFor_national {c : Char} (h : c = 'N' ∨ c = 'n') (r : List Char) :
    ruleFor c ('\x27' :: r) = .quotation .text .text '\x27' 1 := by
  have hplain : isBlank 'N' = false ∧ isBlank 'n' = false := by decide
  rcases h with rfl | rfl <;> simp [ruleFor, hplain]

theorem text_stands_iff {opening body r : List Char} (hamong : opening ∈ openings) :
    Lexeme.Stands ⟨.token .text, opening ++ body ++ ['\x27']⟩ r ↔
      quotedLength '\x27' (body ++ ['\x27']) = some (body.length + 1) ∧ '\x27' ∉ r.head? := by
  have hlength : body.length + 1 = (body ++ ['\x27']).length := by simp
  have hnational : ∀ c, c = 'N' ∨ c = 'n' →
      (Lexeme.Stands ⟨.token .text, [c, '\x27'] ++ body ++ ['\x27']⟩ r ↔
        quotedLength '\x27' (body ++ ['\x27']) = some (body.length + 1) ∧ '\x27' ∉ r.head?) := by
    intro c hletter
    rw [List.append_assoc, List.cons_append, stands_cons_iff, leading, List.append_assoc,
      List.cons_append, ruleFor_national hletter, ← List.cons_append, ← List.append_assoc,
      read_quotation_iff, hlength]
    simp only [List.drop_one, quotedLength_append_iff, true_and]
    simp
  simp only [openings, List.mem_cons, List.not_mem_nil, or_false] at hamong
  rcases hamong with rfl | rfl | rfl
  · rw [List.append_assoc, List.cons_append, stands_cons_iff, leading, ruleFor_quote,
      read_quotation_iff, hlength]
    simp only [List.drop_zero, List.nil_append, quotedLength_append_iff, true_and]
    simp
  · exact hnational 'N' (.inl rfl)
  · exact hnational 'n' (.inr rfl)

/-! ### Whole numbers -/

theorem ruleFor_digit {c : Char} (h : c.isDigit = true) (r : List Char) :
    ruleFor c r =
      if c = '0' ∧ (r.head? = some 'x' ∨ r.head? = some 'X') then .hexadecimal else .decimal := by
  have hother : ∀ d ∈ ['-', '/', '\x27', 'N', 'n', '[', '"', '\x60'], c ≠ d := by
    rintro d hd rfl
    have hnone : ∀ d ∈ ['-', '/', '\x27', 'N', 'n', '[', '"', '\x60'], d.isDigit = false :=
      forall_mem_of_all (by decide)
    simp [hnone c hd] at h
  simp only [List.forall_mem_cons] at hother
  simp [ruleFor, isBlank_of_isDigit h, hother, h]

theorem digits_stand_iff {digits r : List Char} (hsome : digits ≠ [])
    (hall : ∀ c ∈ digits, c.isDigit = true) :
    Lexeme.Stands ⟨.token .number, digits⟩ r ↔
      numberLength r = 0 ∧ ¬ (digits = ['0'] ∧ (r.head? = .some 'x' ∨ r.head? = .some 'X')) := by
  obtain ⟨c, w, rfl⟩ := List.exists_cons_of_ne_nil hsome
  obtain ⟨hfirst, hrest⟩ := List.forall_mem_cons.mp hall
  rw [stands_cons_iff, leading, ruleFor_digit hfirst]
  cases w with
  | nil =>
      by_cases hex : c = '0' ∧ (r.head? = .some 'x' ∨ r.head? = .some 'X')
      · simp [hex, Rule.read]
      · simp [hex, Rule.read]
  | cons d t =>
      have hdigit := hrest d List.mem_cons_self
      have hplain : d ≠ 'x' ∧ d ≠ 'X' := by
        constructor
        · rintro rfl; exact absurd hdigit (by decide)
        · rintro rfl; exact absurd hdigit (by decide)
      rw [if_neg (by simp [hplain]), Rule.read, numberLength_append hrest]
      simp

/-! ### Other values -/

/-- `l'` is `l` with another value, in front of `rest`: another body between the quotes of a text,
or other digits of a whole number. -/
inductive OtherValue (rest : List Char) : Lexeme → Lexeme → Prop
  | text {opening body body' : List Char} : opening ∈ openings → QuotesDoubled body' →
      OtherValue rest ⟨.token .text, opening ++ body ++ ['\x27']⟩
        ⟨.token .text, opening ++ body' ++ ['\x27']⟩
  | number {digits digits' : List Char} : (∀ c ∈ digits, c.isDigit = true) → digits' ≠ [] →
      (∀ c ∈ digits', c.isDigit = true) →
      ¬ (digits' = ['0'] ∧ (rest.head? = some 'x' ∨ rest.head? = some 'X')) →
      OtherValue rest ⟨.token .number, digits⟩ ⟨.token .number, digits'⟩

/-- The value of a literal does not show in the normal form. -/
theorem normalize_other_value (o : RedactionOptions) {x : String} {before after : List Lexeme}
    {l l' : Lexeme} (hfound : lexemes x.toList = .ok (before ++ l :: after))
    (hother : OtherValue (textOf after) l l') :
    o.normalize (String.ofList (textOf before ++ l'.text ++ textOf after)) = o.normalize x := by
  have hstands : l.Stands (textOf after) :=
    (lexemes_eq_ok_iff.mp hfound).2.of_append.1
  cases hother with
  | text hamong hdoubled =>
      refine normalize_replace hfound ?_ ?_ fun gap => rfl
      · rw [text_stands_iff hamong] at hstands ⊢
        exact ⟨quotedLength_of_doubled hdoubled, hstands.2⟩
      · simp only [openings, List.mem_cons, List.not_mem_nil, or_false] at hamong
        rcases hamong with rfl | rfl | rfl
        · exact alike_of_quiet (by decide) _ _
        · exact alike_of_quiet (by decide) _ _
        · exact alike_of_quiet (by decide) _ _
  | number hall hsome' hall' hbare =>
      rename_i digits digits'
      have hsome : digits ≠ [] := by
        obtain ⟨c, w, htext, -⟩ := hstands
        rintro rfl
        cases htext
      refine normalize_replace hfound ?_ ?_ fun gap => rfl
      · rw [digits_stand_iff hsome hall] at hstands
        exact (digits_stand_iff hsome' hall').mpr ⟨hstands.1, hbare⟩
      · obtain ⟨c, w, rfl⟩ := List.exists_cons_of_ne_nil hsome
        obtain ⟨d, v, rfl⟩ := List.exists_cons_of_ne_nil hsome'
        exact alike_of_digits (hall c List.mem_cons_self) (hall' d List.mem_cons_self) _ _

theorem normalize_other_value_sample :
    (lexemes "a='b'".toList = .ok
        ([⟨.token .word, ['a']⟩, ⟨.token .mark, ['=']⟩] ++
          ⟨.token .text, ['\x27'] ++ ['b'] ++ ['\x27']⟩ :: []) ∧
      OtherValue [] ⟨.token .text, ['\x27'] ++ ['b'] ++ ['\x27']⟩
        ⟨.token .text, ['\x27'] ++ ['\x27', '\x27', ']', '-', '-'] ++ ['\x27']⟩) ∧
    RedactionOptions.normalize {} "a=''']--'" = RedactionOptions.normalize {} "a='b'" := by
  have hfound : lexemes "a='b'".toList = .ok
      ([⟨.token .word, ['a']⟩, ⟨.token .mark, ['=']⟩] ++
        ⟨.token .text, ['\x27'] ++ ['b'] ++ ['\x27']⟩ :: []) :=
    lexemes_eq_ok_iff.mpr ⟨rfl, ⟨'a', [], rfl, rfl⟩, ⟨'=', [], rfl, rfl⟩, ⟨'\x27', _, rfl, rfl⟩,
      trivial⟩
  have hother : OtherValue [] ⟨.token .text, ['\x27'] ++ ['b'] ++ ['\x27']⟩
      ⟨.token .text, ['\x27'] ++ ['\x27', '\x27', ']', '-', '-'] ++ ['\x27']⟩ :=
    .text (by decide) (.quote (.other (by decide) (.other (by decide) (.other (by decide) .nil))))
  have htext : "a=''']--'" = String.ofList (textOf [⟨.token .word, ['a']⟩, ⟨.token .mark, ['=']⟩] ++
      (['\x27'] ++ ['\x27', '\x27', ']', '-', '-'] ++ ['\x27']) ++ textOf []) := by decide +kernel
  have hsame := normalize_other_value {} hfound hother
  refine ⟨⟨hfound, hother⟩, ?_⟩
  rw [htext]
  exact hsame

end DeadlockCapture.Sql
