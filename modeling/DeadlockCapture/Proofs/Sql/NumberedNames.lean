import DeadlockCapture.Proofs.Sql.Concealment
import DeadlockCapture.Proofs.Sql.Literals

/-!
Names that differ in a number only. Where redaction replaces digits, the digits of a word or of a
quoted name may be replaced by others, more of them or fewer, without a change of the normal form.
-/

namespace DeadlockCapture.Sql

open DeadlockCapture.Text

/-- A run of digits: what redaction shows as one placeholder. -/
def Digits (s : List Char) : Prop :=
  s ≠ [] ∧ ∀ c ∈ s, c.isDigit = true

/-- `l'` is `l` with other digits in the place of some, where `l` is a word or a quoted name. -/
inductive OtherNumber : Lexeme → Lexeme → Prop
  | name {kind : TokenKind} {front back digits digits' : List Char} :
      kind = .word ∨ kind = .quotedName → Digits digits → Digits digits' →
      OtherNumber ⟨.token kind, front ++ digits ++ back⟩ ⟨.token kind, front ++ digits' ++ back⟩

variable {o : RedactionOptions} {front back digits digits' : List Char}

/-! ### The texts after redaction -/

theorem replaceDigitsAfter_digits (hrun : Digits digits) (inRun : Bool) (back : List Char) :
    replaceDigitsAfter inRun (digits ++ back) =
      if inRun then replaceDigitsAfter true back else '?' :: replaceDigitsAfter true back := by
  have hinside : ∀ digits : List Char, (∀ c ∈ digits, c.isDigit = true) →
      replaceDigitsAfter true (digits ++ back) = replaceDigitsAfter true back := by
    intro digits hall
    induction digits with
    | nil => rfl
    | cons d r ih =>
        obtain ⟨hfirst, hrest⟩ := List.forall_mem_cons.mp hall
        rw [List.cons_append, replaceDigitsAfter, if_pos hfirst, if_pos rfl, ih hrest]
  obtain ⟨d, r, rfl⟩ := List.exists_cons_of_ne_nil hrun.1
  obtain ⟨hfirst, hrest⟩ := List.forall_mem_cons.mp hrun.2
  rw [List.cons_append, replaceDigitsAfter, if_pos hfirst, hinside r hrest]

theorem replaceDigitRuns_other (hrun : Digits digits) (hrun' : Digits digits')
    (front back : List Char) :
    replaceDigitRuns (front ++ digits ++ back) = replaceDigitRuns (front ++ digits' ++ back) := by
  have hafter : ∀ inRun, replaceDigitsAfter inRun (front ++ (digits ++ back)) =
      replaceDigitsAfter inRun (front ++ (digits' ++ back)) := by
    induction front with
    | nil =>
        intro inRun
        rw [List.nil_append, List.nil_append, replaceDigitsAfter_digits hrun,
          replaceDigitsAfter_digits hrun']
    | cons c front ih =>
        intro inRun
        rw [List.cons_append, List.cons_append, replaceDigitsAfter, replaceDigitsAfter, ih, ih]
  simpa only [List.append_assoc, replaceDigitRuns] using hafter false

/-- The words that stand for values have no digit in them. -/
theorem isLiteralWord_of_digit (o : RedactionOptions) {t : Token} {c : Char} (hinside : c ∈ t.text)
    (hdigit : c.isDigit = true) : o.isLiteralWord t = false := by
  have hother : ∀ word ∈ ["NULL", "TRUE", "FALSE"], t.spells word = false := by
    have hletters : ∀ word ∈ ["NULL", "TRUE", "FALSE"], ∀ d ∈ word.toList, d.isDigit = false := by
      simp only [List.mem_cons, List.not_mem_nil, or_false]
      rintro word (rfl | rfl | rfl) <;> exact forall_mem_of_all (by decide)
    intro word hamong
    refine not_spells_of_mem hinside fun hletter => ?_
    rw [toUpper_of_isDigit hdigit] at hletter
    simp [hletters word hamong c hletter] at hdigit
  simp [RedactionOptions.isLiteralWord, hother]

theorem redact_numbered (hreplaces : o.replaceDigits = true) {kind : TokenKind}
    (hname : kind = .word ∨ kind = .quotedName) (hrun : Digits digits) (gap : Bool) :
    o.redact ⟨kind, front ++ digits ++ back, gap⟩ =
      ⟨kind, replaceDigitRuns (front ++ digits ++ back), gap⟩ := by
  obtain ⟨d, r, rfl⟩ := List.exists_cons_of_ne_nil hrun.1
  have hvalue : o.isLiteralWord ⟨kind, front ++ d :: r ++ back, gap⟩ = false :=
    isLiteralWord_of_digit o (c := d) (by simp) (hrun.2 d List.mem_cons_self)
  rw [RedactionOptions.redact]
  rcases hname with rfl | rfl
  · simp only [RedactionOptions.redactedText, hvalue, hreplaces, Bool.false_eq_true, if_false,
      if_true]
  · simp only [RedactionOptions.redactedText, hreplaces, if_true]

/-! ### Where the names end -/

theorem calmer_numbered (hrun : Digits digits) (hrun' : Digits digits') (front back : List Char) :
    Calmer (front ++ digits ++ back) (front ++ digits' ++ back) := by
  obtain ⟨d, r, rfl⟩ := List.exists_cons_of_ne_nil hrun.1
  obtain ⟨e, s, rfl⟩ := List.exists_cons_of_ne_nil hrun'.1
  have hcalm := Calmer.of_digits (hrun.2 d List.mem_cons_self) (hrun'.2 e List.mem_cons_self)
    (r ++ back) (s ++ back)
  simpa using hcalm.append front

theorem stands_word_numbered {c : Char} {r : List Char} (hrun : Digits digits)
    (hrun' : Digits digits')
    (hstands : Lexeme.Stands ⟨.token .word, c :: (front ++ digits ++ back)⟩ r) :
    Lexeme.Stands ⟨.token .word, c :: (front ++ digits' ++ back)⟩ r := by
  rw [stands_cons_iff] at hstands ⊢
  have hrule := ruleFor_of_word hstands
  have hstarts := ruleFor_sees c (front ++ digits ++ back ++ r)
  rw [leading, hrule] at hstands
  rw [hrule] at hstarts
  have hcalm : Calmer (front ++ digits ++ back ++ r) (front ++ digits' ++ back ++ r) := by
    simpa only [List.append_assoc] using calmer_numbered hrun hrun' front (back ++ r)
  have hrule' : ruleFor c (front ++ digits' ++ back ++ r) = .word := by
    rw [← hrule]
    exact hcalm.ruleFor_eq (by rw [hrule]; exact hstarts)
  have hreaches : nameRun (front ++ digits ++ back ++ r) = (front ++ digits ++ back).length := by
    simpa [Rule.read] using hstands
  obtain ⟨hinside, hstops⟩ := run_eq_length_iff.mp hreaches
  have hinside' : ∀ d ∈ front ++ digits' ++ back, continuesName d = true := by
    simp only [List.forall_mem_append] at hinside ⊢
    exact ⟨⟨hinside.1.1, fun d hmember => continuesName_of_isDigit (hrun'.2 d hmember)⟩, hinside.2⟩
  have hreaches' : nameRun (front ++ digits' ++ back ++ r) = (front ++ digits' ++ back).length :=
    run_eq_length_iff.mpr ⟨hinside', hstops⟩
  rw [leading, hrule', Rule.read, hreaches']

theorem quotedLength_digits_iff {close : Char} (hplain : close.isDigit = false)
    (hall : ∀ c ∈ digits, c.isDigit = true) :
    quotedLength close (digits ++ back) = some (digits ++ back).length ↔
      quotedLength close back = some back.length := by
  induction digits with
  | nil => exact Iff.rfl
  | cons d r ih =>
      obtain ⟨hfirst, hrest⟩ := List.forall_mem_cons.mp hall
      have hother : d ≠ close := by
        rintro rfl
        simp [hplain] at hfirst
      rw [← ih hrest]
      by_cases hempty : r ++ back = []
      · simp [hempty, quotedLength, hother]
      · simp [quotedLength_cons hother hempty]

/-- The end of a quotation may be replaced by another end where it does not begin with the closing
mark. -/
theorem quotedLength_replace {close c : Char} {s t : List Char} (hother : c ≠ close)
    (hsome : t ≠ []) (hsame : quotedLength close (c :: s) = .some (c :: s).length →
      quotedLength close t = .some t.length)
    (hclosed : quotedLength close (front ++ c :: s) = .some (front ++ c :: s).length) :
    quotedLength close (front ++ t) = .some (front ++ t).length := by
  fun_induction quotedLength close front with
  | case1 => exact hsame hclosed
  | case2 => simp [quotedLength, hother] at hclosed
  | case3 b hplain =>
      rw [List.singleton_append, quotedLength_cons hplain (by simp)] at hclosed
      rw [List.singleton_append, quotedLength_cons hplain hsome, hsame (by simpa using hclosed)]
      rfl
  | case4 r ih => simp_all [quotedLength]
  | case5 b r hapart => simp_all [quotedLength]
  | case6 a b r hapart ih => simp_all [quotedLength]

/-- Whether a quotation ends with the text does not depend on the digits in it. -/
theorem quotedLength_numbered {close : Char} (hplain : close.isDigit = false)
    (hrun : Digits digits) (hrun' : Digits digits')
    (hclosed : quotedLength close (front ++ (digits ++ back)) =
      some (front ++ (digits ++ back)).length) :
    quotedLength close (front ++ (digits' ++ back)) =
      some (front ++ (digits' ++ back)).length := by
  obtain ⟨d, r, rfl⟩ := List.exists_cons_of_ne_nil hrun.1
  have hother : d ≠ close := by
    rintro rfl
    have hdigit := hrun.2 d List.mem_cons_self
    simp [hplain] at hdigit
  refine quotedLength_replace hother (by simp [hrun'.1]) (fun hsame => ?_) hclosed
  exact (quotedLength_digits_iff hplain hrun'.2).mpr
    ((quotedLength_digits_iff hplain hrun.2).mp hsame)

theorem stands_quotedName_numbered {c : Char} {r : List Char} (hrun : Digits digits)
    (hrun' : Digits digits')
    (hstands : Lexeme.Stands ⟨.token .quotedName, c :: (front ++ digits ++ back)⟩ r) :
    Lexeme.Stands ⟨.token .quotedName, c :: (front ++ digits' ++ back)⟩ r := by
  rw [quotedName_stands_iff, List.append_assoc] at hstands ⊢
  obtain ⟨close, hmarks, hclosed, hstops⟩ := hstands
  obtain ⟨-, -, hplain⟩ := mem_of_quotations hmarks
  exact ⟨close, hmarks, quotedLength_numbered hplain hrun hrun' hclosed, hstops⟩

/-! ### Other numbers -/

/-- Where digits are replaced, the numbers in names do not show in the normal form. -/
theorem normalize_other_number (hreplaces : o.replaceDigits = true) {x : String}
    {before after : List Lexeme} {l l' : Lexeme}
    (hfound : lexemes x.toList = .ok (before ++ l :: after)) (hother : OtherNumber l l') :
    o.normalize (String.ofList (textOf before ++ l'.text ++ textOf after)) = o.normalize x := by
  have hstands : l.Stands (textOf after) := (lexemes_eq_ok_iff.mp hfound).2.of_append.1
  cases hother with
  | name hname hrun hrun' =>
      rename_i kind front back digits digits'
      have hsame (gap : Bool) : o.redact ⟨kind, front ++ digits ++ back, gap⟩ =
          o.redact ⟨kind, front ++ digits' ++ back, gap⟩ := by
        rw [redact_numbered hreplaces hname hrun, redact_numbered hreplaces hname hrun',
          replaceDigitRuns_other hrun hrun']
      -- A name does not begin with a digit, so its first character stays.
      obtain ⟨c, w, htext, hplain⟩ :=
        first_of_stands (t := ⟨kind, front ++ digits ++ back, false⟩) hstands hname
      cases front with
      | nil =>
          obtain ⟨d, r, rfl⟩ := List.exists_cons_of_ne_nil hrun.1
          obtain ⟨rfl, -⟩ := List.cons.inj htext
          simp [hrun.2 d List.mem_cons_self] at hplain
      | cons b front =>
          refine normalize_replace hfound ?_ ⟨?_, id⟩ hsame
          · rcases hname with rfl | rfl
            · exact stands_word_numbered hrun hrun' hstands
            · exact stands_quotedName_numbered hrun hrun' hstands
          · simpa only [List.append_assoc] using
              calmer_numbered hrun hrun' (b :: front) (back ++ textOf after)

theorem normalize_other_number_sample :
    (({ replaceDigits := true } : RedactionOptions).replaceDigits = true ∧
      lexemes "a.[b]]2]".toList = .ok ([⟨.token .word, ['a']⟩, ⟨.token .mark, ['.']⟩] ++
        ⟨.token .quotedName, ['[', 'b', ']', ']'] ++ ['2'] ++ [']']⟩ :: []) ∧
      OtherNumber ⟨.token .quotedName, ['[', 'b', ']', ']'] ++ ['2'] ++ [']']⟩
        ⟨.token .quotedName, ['[', 'b', ']', ']'] ++ ['0', '3'] ++ [']']⟩) ∧
    RedactionOptions.normalize { replaceDigits := true } "a.[b]]03]" =
      RedactionOptions.normalize { replaceDigits := true } "a.[b]]2]" := by
  have hfound : lexemes "a.[b]]2]".toList = .ok ([⟨.token .word, ['a']⟩, ⟨.token .mark, ['.']⟩] ++
      ⟨.token .quotedName, ['[', 'b', ']', ']'] ++ ['2'] ++ [']']⟩ :: []) :=
    lexemes_eq_ok_iff.mpr ⟨rfl, ⟨'a', [], rfl, rfl⟩, ⟨'.', [], rfl, rfl⟩, ⟨'[', _, rfl, rfl⟩,
      trivial⟩
  have hother : OtherNumber ⟨.token .quotedName, ['[', 'b', ']', ']'] ++ ['2'] ++ [']']⟩
      ⟨.token .quotedName, ['[', 'b', ']', ']'] ++ ['0', '3'] ++ [']']⟩ :=
    .name (.inr rfl) ⟨by simp, forall_mem_of_all (by decide)⟩
      ⟨by simp, forall_mem_of_all (by decide)⟩
  have htext : "a.[b]]03]" = String.ofList (textOf [⟨.token .word, ['a']⟩, ⟨.token .mark, ['.']⟩] ++
      (['[', 'b', ']', ']'] ++ ['0', '3'] ++ [']']) ++ textOf []) := by decide +kernel
  have hsame := normalize_other_number (o := { replaceDigits := true }) rfl hfound hother
  refine ⟨⟨rfl, hfound, hother⟩, ?_⟩
  rw [htext]
  exact hsame

end DeadlockCapture.Sql
