import DeadlockCapture.Json.Decoder
import DeadlockCapture.Json.Printer
import DeadlockCapture.Proofs.Text.Digits

/-!
What a reader finds where a text or a number is written. Between quotes it finds one unit for each
character, whatever was escaped, and the units stand for the text. A numeral is read up to where it
ends, and the texts of whole numbers and of doubles are numerals.
-/

namespace DeadlockCapture.Json

open DeadlockCapture.Text

section Quoted

/-- The unit that a character between quotes is read as. -/
def unitOf (c : Char) : TextUnit :=
  if c.toNat < 0x20 ∧ c ∉ ['\n', '\r', '\t', '\x08', '\x0c'] then .unit c.toNat else .plain c

def unitsOf (s : String) : List TextUnit :=
  s.toList.map unitOf

/-- Four digits stand for each control character. -/
theorem hexUnit_control {n : Nat} (h : n < 0x20) (rest : List Char) :
    hexUnit ('0' :: '0' :: Nat.digitChar (n / 16) :: Nat.digitChar (n % 16) :: rest) = .ok n := by
  have hdigits : ∀ n < 0x20, ∀ digits, digits = ['0', '0', (n / 16).digitChar, (n % 16).digitChar] →
      utf8Length digits = 4 ∧ digits.all isHexDigit = true ∧ valueOf 16 digits = n := by
    rintro n h _ rfl
    revert n
    decide
  obtain ⟨hlength, hhex, hvalue⟩ := hdigits n h _ rfl
  simp only [hexUnit, List.take_succ_cons, List.take_zero, hlength, hhex, hvalue, if_true]
  rfl

theorem readText_quote (rest : List Char) : readText ('"' :: rest) = ([], .ok rest) := by
  rw [readText.eq_def]
  rfl

theorem readText_named {e d : Char} (h : escaped? e = some d) (rest : List Char) :
    readText ('\\' :: e :: rest) = pushUnit (.plain d) (readText rest) := by
  rw [readText.eq_def]
  simp only [h]
  rfl

theorem readText_numbered {n : Nat} {digits rest : List Char} (hlength : digits.length = 4)
    (h : hexUnit (digits ++ rest) = .ok n) :
    readText ('\\' :: 'u' :: (digits ++ rest)) = pushUnit (.unit n) (readText rest) := by
  rw [readText.eq_def]
  simp only [h, ← hlength, List.drop_left]
  rfl

theorem readText_plain {c : Char} (hquote : c ≠ '"') (hslash : c ≠ '\\') (h : ¬ c.toNat < 0x20)
    (rest : List Char) : readText (c :: rest) = pushUnit (.plain c) (readText rest) := by
  rw [readText.eq_def]
  simp only [hquote, hslash, h, if_false]

theorem readText_escape (c : Char) (rest : List Char) :
    readText (escape c ++ rest) = pushUnit (unitOf c) (readText rest) := by
  by_cases hnamed : c ∈ ['"', '\\', '\n', '\r', '\t', '\x08', '\x0c']
  · simp only [List.mem_cons, List.not_mem_nil, or_false] at hnamed
    rcases hnamed with rfl | rfl | rfl | rfl | rfl | rfl | rfl <;> exact readText_named rfl rest
  · simp only [List.mem_cons, List.not_mem_nil, or_false, not_or] at hnamed
    obtain ⟨hquote, hslash, hfeed, hreturn, htab, hback, hform⟩ := hnamed
    simp only [escape, unitOf, hquote, hslash, hfeed, hreturn, htab, hback, hform, if_false,
      List.mem_cons, List.not_mem_nil, or_false, not_false_eq_true, and_true]
    split
    · rename_i hcontrol
      have hlength (a b : Char) : ['0', '0', a, b].length = 4 := rfl
      exact readText_numbered (hlength _ _) (hexUnit_control hcontrol rest)
    · rename_i hplain
      exact readText_plain hquote hslash hplain rest

/-- Between quotes each character is found as its unit. -/
theorem readText_escapes (s rest : List Char) :
    readText (s.flatMap escape ++ '"' :: rest) = (s.map unitOf, .ok rest) := by
  induction s with
  | nil => exact readText_quote rest
  | cons c s ih =>
      rw [List.flatMap_cons, List.append_assoc, readText_escape, ih]
      rfl

/-- The units of a text stand for the text. -/
theorem charsAfter_units (s : List Char) : charsAfter none (s.map unitOf) = .ok s := by
  induction s with
  | nil => rfl
  | cons c s ih =>
      by_cases hcontrol : c.toNat < 0x20 ∧ c ∉ ['\n', '\r', '\t', '\x08', '\x0c']
      · have hlow : isLowUnit c.toNat = false := by simp [isLowUnit]; omega
        have hhigh : isHighUnit c.toNat = false := by simp [isHighUnit]; omega
        simp only [List.map_cons, unitOf, if_pos hcontrol, charsAfter, hlow, hhigh, ih, Except.map,
          Char.ofNat_toNat, Bool.false_eq_true, if_false]
      · simp only [List.map_cons, unitOf, if_neg hcontrol, charsAfter, ih, Except.map,
          Option.isSome_none, Bool.false_eq_true, if_false]

theorem textOfUnits_unitsOf (s : String) : textOfUnits (unitsOf s) = .ok s := by
  simp only [textOfUnits, unitsOf, charsAfter_units, String.ofList_toList]

end Quoted

section Numbers

/-- The text goes on with nothing that belongs to a number. -/
def EndsNumber (rest : List Char) : Prop :=
  ∀ c ∈ rest.head?, c.isDigit = false ∧ c ≠ '.' ∧ c ≠ 'e' ∧ c ≠ 'E'

/-- The exponent of a numeral, as it is written; a positive one has its sign. -/
def exponentChars : Option (Bool × List Char) → List Char
  | none => []
  | some (negative, digits) => 'e' :: (if negative then '-' else '+') :: digits

namespace Numeral

def chars (n : Numeral) : List Char :=
  (if n.negative then ['-'] else []) ++ n.whole ++
    (if n.fraction.isEmpty then [] else '.' :: n.fraction) ++ exponentChars n.exponent

/-- The parts of a numeral are digits, and no zero stands in front of other digits. -/
structure Proper (n : Numeral) : Prop where
  whole : ∀ c ∈ n.whole, c.isDigit = true
  whole_ne_nil : n.whole ≠ []
  front : n.whole.head? = some '0' → n.whole.length = 1
  fraction : ∀ c ∈ n.fraction, c.isDigit = true
  exponent : ∀ e ∈ n.exponent, e.2 ≠ [] ∧ ∀ c ∈ e.2, c.isDigit = true

end Numeral

variable {n : Numeral} {rest : List Char}

theorem readScale_exponentChars {e : Option (Bool × List Char)}
    (hdigits : ∀ d ∈ e, d.2 ≠ [] ∧ ∀ c ∈ d.2, c.isDigit = true) (hnone : n.exponent = none)
    (hrest : EndsNumber rest) :
    readScale n (exponentChars e ++ rest) = (.number { n with exponent := e }, some rest) := by
  cases e with
  | none =>
      rw [exponentChars, List.nil_append, readScale.eq_def, ← hnone]
      split
      · simpa using hrest 'e' rfl
      · simpa using hrest 'E' rfl
      · rfl
  | some d =>
      obtain ⟨negative, digits⟩ := d
      obtain ⟨hne, hall⟩ := hdigits _ rfl
      have hrun : digitRun (digits ++ rest) = digits.length :=
        digitRun_append hall fun c hc => (hrest c hc).1
      have hpos : digits.length ≠ 0 := by simpa using hne
      cases negative <;>
        simp only [exponentChars, List.cons_append, readScale, readExponent, Bool.false_eq_true,
          if_false, if_true, hrun, hpos, List.take_left, List.drop_left]

/-- What stands after the digits of a numeral is no digit and no point. -/
theorem head_exponentChars {e : Option (Bool × List Char)} (hrest : EndsNumber rest) :
    ∀ c ∈ (exponentChars e ++ rest).head?, c.isDigit = false ∧ c ≠ '.' := by
  cases e with
  | none => exact fun c hc => ⟨(hrest c hc).1, (hrest c hc).2.1⟩
  | some d => simp [exponentChars]

/-- What follows the whole part of a numeral, before another text. -/
def afterWhole (n : Numeral) (rest : List Char) : List Char :=
  (if n.fraction.isEmpty then [] else '.' :: n.fraction) ++ (exponentChars n.exponent ++ rest)

theorem readFraction_afterWhole (hn : n.Proper) (hrest : EndsNumber rest) :
    readFraction ⟨n.negative, n.whole, [], none⟩ (afterWhole n rest) = (.number n, some rest) := by
  obtain ⟨negative, whole, fraction, e⟩ := n
  have hafter := head_exponentChars (e := e) hrest
  cases fraction with
  | nil =>
      simp only [afterWhole, List.isEmpty_nil, if_true, List.nil_append]
      rw [readFraction.eq_def]
      split
      · rename_i hpoint
        exact absurd rfl (hafter '.' (by rw [hpoint]; rfl)).2
      · exact readScale_exponentChars hn.exponent rfl hrest
  | cons c r =>
      have hrun : digitRun (c :: r ++ (exponentChars e ++ rest)) = (c :: r).length :=
        digitRun_append hn.fraction fun d hd => (hafter d hd).1
      have hpos : (c :: r).length ≠ 0 := Nat.succ_ne_zero _
      simp only [afterWhole, List.isEmpty_cons, Bool.false_eq_true, if_false]
      rw [List.cons_append, readFraction]
      simp only [hrun, hpos, if_false, List.take_left, List.drop_left]
      exact readScale_exponentChars hn.exponent rfl hrest

theorem readNumber_afterWhole (hn : n.Proper) (hrest : EndsNumber rest) :
    readNumber n.negative (n.whole ++ afterWhole n rest) = (.number n, some rest) := by
  have hstop : ∀ c ∈ (afterWhole n rest).head?, c.isDigit = false := by
    intro c hc
    cases hfraction : n.fraction with
    | nil =>
        rw [afterWhole, hfraction] at hc
        exact (head_exponentChars hrest c hc).1
    | cons d r =>
        rw [afterWhole, hfraction] at hc
        obtain rfl : '.' = c := by simpa using hc
        rfl
  have hrun := digitRun_append hn.whole hstop
  have hpos : n.whole.length ≠ 0 := by simpa using hn.whole_ne_nil
  have hhead : (n.whole ++ afterWhole n rest).head? = n.whole.head? := by
    obtain ⟨c, r, hcons⟩ := List.exists_cons_of_ne_nil hn.whole_ne_nil
    rw [hcons]
    rfl
  have hfront : ¬ ((n.whole ++ afterWhole n rest).head? = some '0' ∧ 1 < n.whole.length) := by
    rintro ⟨hzero, hlong⟩
    have := hn.front (hhead ▸ hzero)
    omega
  simp only [readNumber, hrun, hpos, if_false, hfront, List.take_left, List.drop_left]
  exact readFraction_afterWhole hn hrest

theorem chars_append : n.chars ++ rest =
    (if n.negative then ['-'] else []) ++ (n.whole ++ afterWhole n rest) := by
  simp only [Numeral.chars, afterWhole, List.append_assoc]

theorem isSeparator_of_isDigit {c : Char} (h : c.isDigit = true) : isSeparator c = false := by
  rw [Bool.eq_false_iff]
  intro hblank
  simp only [isSeparator, Bool.or_eq_true, beq_iff_eq] at hblank
  rcases hblank with ((rfl | rfl) | rfl) | rfl <;> cases h

theorem readValue_minus (fuel : Nat) (s : List Char) :
    readValue (fuel + 1) ('-' :: s) = readNumber true s :=
  rfl

theorem readValue_digit {c : Char} (h : c.isDigit = true) (fuel : Nat) (s : List Char) :
    readValue (fuel + 1) (c :: s) = readNumber false (c :: s) := by
  have hother : ∀ d : Char, d.isDigit = false → c ≠ d := by
    rintro d hd rfl
    rw [h] at hd
    cases hd
  rw [readValue, skipBlank, List.dropWhile_cons_of_neg (by simp [isSeparator_of_isDigit h])]
  simp only [hother '\x7b' rfl, hother '[' rfl, hother '"' rfl, hother 'n' rfl, hother 't' rfl,
    hother 'f' rfl, hother '-' rfl, h, if_false, if_true]

/-- A numeral is read up to where it ends. -/
theorem readValue_numeral (hn : n.Proper) (hrest : EndsNumber rest) (fuel : Nat) :
    readValue (fuel + 1) (n.chars ++ rest) = (.number n, some rest) := by
  have hread := readNumber_afterWhole hn hrest
  rw [chars_append]
  cases hnegative : n.negative with
  | true =>
      rw [hnegative] at hread
      rw [if_pos rfl, List.singleton_append, readValue_minus, hread]
  | false =>
      obtain ⟨c, r, hcons⟩ := List.exists_cons_of_ne_nil hn.whole_ne_nil
      have hdigit : c.isDigit = true := hn.whole c (hcons ▸ List.mem_cons_self)
      rw [hnegative, hcons, List.cons_append] at hread
      rw [if_neg Bool.false_ne_true, List.nil_append, hcons, List.cons_append,
        readValue_digit hdigit, hread]

/-- The numeral that a whole number is written as. -/
def numeralOf (k : Int) : Numeral :=
  ⟨decide (k < 0), decimal k.natAbs, [], none⟩

theorem wholeText_eq (k : Int) : wholeText k = (numeralOf k).chars := by
  by_cases h : k < 0 <;> simp [wholeText, numeralOf, Numeral.chars, exponentChars, h]

theorem proper_decimal {k : Nat} (h : (decimal k).head? = some '0') : (decimal k).length = 1 := by
  rcases Nat.eq_zero_or_pos k with rfl | hpos
  · rfl
  · exact absurd h (head?_decimal hpos)

theorem proper_numeralOf (k : Int) : (numeralOf k).Proper where
  whole _ hc := isDigit_of_mem_decimal hc
  whole_ne_nil := decimal_ne_nil _
  front := proper_decimal
  fraction _ hc := by cases hc
  exponent _ he := by cases he

/-- The whole number of a numeral that fits into 64 bits. -/
theorem integer?_numeralOf {k : Int} (hleast : int64Min ≤ k) (hgreatest : k ≤ uint64Max) :
    (numeralOf k).integer? = some k := by
  simp only [int64Min, uint64Max] at hleast hgreatest
  simp only [Numeral.integer?, numeralOf, List.isEmpty_nil, Option.isNone_none, and_self, if_true,
    valueOf_decimal, decide_eq_true_eq, int64Max, uint64Max]
  split
  · rw [if_neg (by omega)]
    congr 1
    omega
  · rw [if_neg (by omega)]
    congr 1
    omega

/-- Digits without a zero in front stay so with more digits behind them. -/
theorem proper_of_decimal {k : Nat} (h : 0 < k) {negative : Bool} {count : Nat} (hcount : 0 < count)
    {zeros fraction : List Char} (hzeros : ∀ c ∈ zeros, c.isDigit = true)
    (hfraction : ∀ c ∈ fraction, c.isDigit = true) {e : Option (Bool × List Char)}
    (he : ∀ d ∈ e, d.2 ≠ [] ∧ ∀ c ∈ d.2, c.isDigit = true) :
    Numeral.Proper ⟨negative, (decimal k).take count ++ zeros, fraction, e⟩ := by
  obtain ⟨c, r, hcons⟩ := List.exists_cons_of_ne_nil (decimal_ne_nil k)
  obtain ⟨m, rfl⟩ : ∃ m, count = m + 1 := ⟨count - 1, by omega⟩
  refine ⟨?_, ?_, ?_, hfraction, he⟩
  · intro d hd
    rcases List.mem_append.1 hd with hd | hd
    · exact isDigit_of_mem_decimal (List.mem_of_mem_take hd)
    · exact hzeros d hd
  · simp [hcons]
  · intro hzero
    refine absurd ?_ (head?_decimal h)
    simpa [hcons] using hzero

theorem isDigit_of_mem_replicate {k : Nat} {c : Char} (h : c ∈ List.replicate k '0') :
    c.isDigit = true := by
  rw [List.eq_of_mem_replicate h]
  rfl

/-- A decimal number that is not zero, written without an exponent, is a numeral. -/
theorem positional_eq (negative : Bool) (d : Decimal) (h : 0 < d.coefficient) :
    ∃ n : Numeral, n.Proper ∧
      (if negative then ['-'] else []) ++ d.positional ['.', '0'] = n.chars := by
  have hdigits (c : Char) (hc : c ∈ d.digits) : c.isDigit = true := isDigit_of_mem_decimal hc
  have hne : d.digits ≠ [] := decimal_ne_nil _
  have hlength : 0 < d.digits.length := List.length_pos_iff.2 hne
  by_cases hexponent : 0 ≤ d.exponent
  · refine ⟨⟨negative, d.digits.take d.digits.length ++ List.replicate d.exponent.toNat '0', ['0'],
      none⟩, proper_of_decimal h hlength (fun c hc => isDigit_of_mem_replicate hc) ?_ ?_, ?_⟩
    · simp
    · simp
    · simp [Decimal.positional, hexponent, Numeral.chars, exponentChars]
  · by_cases hpoint : 0 < d.point
    · have hfraction : d.digits.drop d.point.toNat ≠ [] := by
        rw [Ne, List.drop_eq_nil_iff, Decimal.point]
        omega
      refine ⟨⟨negative, d.digits.take d.point.toNat ++ [], d.digits.drop d.point.toNat, none⟩,
        proper_of_decimal h (by omega) (by simp) ?_ ?_, ?_⟩
      · exact fun c hc => hdigits c (List.mem_of_mem_drop hc)
      · simp
      · simp only [Decimal.positional, hexponent, hpoint, if_false, if_true, Numeral.chars,
          exponentChars, List.isEmpty_eq_false_iff.2 hfraction, Bool.false_eq_true,
          List.append_nil, List.append_assoc]
    · refine ⟨⟨negative, ['0'], List.replicate (-d.point).toNat '0' ++ d.digits, none⟩, ?_, ?_⟩
      · refine ⟨by simp, by simp, by simp, ?_, by simp⟩
        intro c hc
        rcases List.mem_append.1 hc with hc | hc
        · exact isDigit_of_mem_replicate hc
        · exact hdigits c hc
      · simp [Decimal.positional, hexponent, hpoint, Numeral.chars, exponentChars, hne]

/-- A double is written as a numeral or, if it is not finite, as null. -/
theorem scientificText_cases (x : Float) :
    Decimal.scientificText x = ['n', 'u', 'l', 'l'] ∨
      ∃ n : Numeral, n.Proper ∧ Decimal.scientificText x = n.chars := by
  rw [Decimal.scientificText]
  split
  · exact .inl rfl
  · exact .inl rfl
  · rename_i negative d hshape
    refine .inr ?_
    by_cases hzero : d.coefficient = 0
    · refine ⟨⟨negative, ['0'], ['0'], none⟩, ⟨by simp, by simp, by simp, by simp, by simp⟩, ?_⟩
      simp [hzero, Numeral.chars, exponentChars]
    · have hpos : 0 < d.coefficient := Nat.pos_of_ne_zero hzero
      simp only [hzero, if_false]
      split
      · exact positional_eq negative d hpos
      · refine ⟨⟨negative, d.digits.take 1 ++ [], d.digits.tail,
          some (decide (d.point - 1 < 0), decimal (d.point - 1).natAbs)⟩,
          proper_of_decimal hpos (by decide) (by simp) ?_ ?_, ?_⟩
        · exact fun c hc => isDigit_of_mem_decimal (List.mem_of_mem_tail hc)
        · rintro e he
          obtain rfl := Option.mem_some_iff.1 he
          exact ⟨decimal_ne_nil _, fun c hc => isDigit_of_mem_decimal hc⟩
        · simp [Numeral.chars, exponentChars]

end Numbers

end DeadlockCapture.Json
