import DeadlockCapture.Proofs.Text.Blank
import DeadlockCapture.Proofs.Text.Runs
import DeadlockCapture.Sql.Lexeme

/-!
How far the parts of a lexeme reach, and when they reach as far in front of another text.
-/

namespace DeadlockCapture.Sql

open DeadlockCapture.Text

theorem digitRun_cons {c : Char} (h : c.isDigit = true) (s : List Char) :
    digitRun (c :: s) = digitRun s + 1 := by
  simp [digitRun, h]

theorem digitRun_eq_zero_iff {s : List Char} :
    digitRun s = 0 ↔ s.head?.any Char.isDigit = false := by
  cases s with
  | nil => simp [digitRun]
  | cons c s => by_cases hc : c.isDigit <;> simp [digitRun, hc]

theorem quotedLength_pos {close : Char} {s : List Char} {n : Nat}
    (h : quotedLength close s = some n) : 0 < n := by
  fun_induction quotedLength close s generalizing n <;> simp_all <;> omega

theorem quotedLength_le {close : Char} {s : List Char} {n : Nat}
    (h : quotedLength close s = some n) : n ≤ s.length := by
  fun_induction quotedLength close s generalizing n <;> simp_all <;> grind

theorem commentLength_le {depth : Nat} {s : List Char} {n : Nat}
    (h : commentLength depth s = some n) : n ≤ s.length := by
  fun_induction commentLength depth s generalizing n <;> simp_all <;> grind

theorem commentLength_pos {depth : Nat} {s : List Char} {n : Nat}
    (h : commentLength depth s = some n) : 0 < n := by
  fun_induction commentLength depth s generalizing n <;> simp_all <;> grind

theorem digitRun_le (s : List Char) : digitRun s ≤ s.length :=
  run_le Char.isDigit s

theorem exponentLength_le (s : List Char) : exponentLength s ≤ s.length := by
  unfold exponentLength
  split
  · rename_i e r
    have hrun := digitRun_le r
    split
    · split
      · rename_i sign t
        have hshort := digitRun_le t
        simp only [List.length_cons] at hrun ⊢
        repeat' split
        all_goals omega
      · exact Nat.zero_le _
    · exact Nat.zero_le _
  · exact Nat.zero_le _

theorem scaleLength_le (s : List Char) : scaleLength s ≤ s.length := by
  have hfraction : fractionLength s ≤ s.length := by
    fun_cases fractionLength s with
    | case1 t =>
        have hrun := digitRun_le t
        simp only [List.length_cons]
        omega
    | case2 => exact Nat.zero_le _
  have hexponent := exponentLength_le (s.drop (fractionLength s))
  simp only [List.length_drop] at hexponent
  unfold scaleLength
  omega

theorem numberLength_le (s : List Char) : numberLength s ≤ s.length := by
  have hrun := digitRun_le s
  have hscale := scaleLength_le (s.drop (digitRun s))
  simp only [List.length_drop] at hscale
  unfold numberLength
  omega

/-! ### Texts that carry a lexeme no further -/

/-- A character that carries no lexeme on. -/
def Inert (c : Char) : Prop :=
  isBlank c = true ∨ c = '?'

instance : DecidablePred Inert :=
  fun c => inferInstanceAs (Decidable (isBlank c = true ∨ c = '?'))

def startsSigned : List Char → Bool
  | c :: r => (c == '+' || c == '-') && r.head?.any Char.isDigit
  | [] => false

/-- Whatever carries a lexeme on into `r'` carries it on into `r`. -/
structure Calmer (r r' : List Char) : Prop where
  head : ∀ d ∈ r'.head?, d ∈ r.head? ∨ Inert d ∨
    (d.isDigit = true ∧ r.head?.any Char.isDigit = true)
  number : startsNumber r' = true → startsNumber r = true
  signed : startsSigned r' = true → startsSigned r = true
  exponent : exponentLength r = 0 → exponentLength r' = 0

/-- A class without the blanks and the question mark holds no inert character. -/
theorem Inert.not_in {p : Char → Bool} {c : Char} (h : Inert c)
    (hnone : ∀ b ∈ '?' :: blanks, p b = false) : p c = false := by
  cases h with
  | inl hblank => exact hnone c (List.mem_cons_of_mem _ (mem_blanks hblank))
  | inr hmark => exact hnone c (hmark ▸ List.mem_cons_self)

theorem isDigit_of_inert {c : Char} (h : Inert c) : c.isDigit = false :=
  h.not_in (forall_mem_of_all (by decide +kernel))

theorem isHexDigit_of_inert {c : Char} (h : Inert c) : isHexDigit c = false :=
  h.not_in (forall_mem_of_all (by decide +kernel))

theorem isLetter_of_inert {c : Char} (h : Inert c) : isLetter c = false :=
  h.not_in (forall_mem_of_all (by decide +kernel))

theorem isNumeral_of_inert {c : Char} (h : Inert c) : isNumeral c = false :=
  h.not_in (forall_mem_of_all (by decide +kernel))

theorem startsName_of_inert {c : Char} (h : Inert c) : startsName c = false := by
  have hmarks : (c == '_' || c == '#') = false :=
    h.not_in (p := fun c => c == '_' || c == '#') (forall_mem_of_all (by decide +kernel))
  simp only [startsName, isLetter_of_inert h, Bool.false_or]
  exact hmarks

theorem continuesName_of_inert {c : Char} (h : Inert c) : continuesName c = false := by
  have hmarks : (c == '_' || c == '#' || c == '$' || c == '@') = false :=
    h.not_in (p := fun c => c == '_' || c == '#' || c == '$' || c == '@')
      (forall_mem_of_all (by decide +kernel))
  simp only [continuesName, isLetter_of_inert h, isNumeral_of_inert h, Bool.false_or]
  exact hmarks

theorem toNat_of_isDigit {c : Char} (h : c.isDigit = true) : 48 ≤ c.toNat ∧ c.toNat ≤ 57 := by
  simpa [Char.isDigit, UInt32.le_iff_toNat_le] using h

theorem isLetter_of_isDigit {c : Char} (h : c.isDigit = true) : isLetter c = false := by
  have hbounds := toNat_of_isDigit h
  have hascii : c.toNat < 0x80 := by omega
  simp only [isLetter, hascii, if_true]
  delta Char.isAlpha Char.isUpper Char.isLower
  simp [UInt32.le_iff_toNat_le]
  omega

theorem isNumeral_of_isDigit {c : Char} (h : c.isDigit = true) : isNumeral c = true := by
  have hbounds := toNat_of_isDigit h
  have hascii : c.toNat < 0x80 := by omega
  simp only [isNumeral, hascii, if_true, h]

theorem toUpper_of_isDigit {c : Char} (h : c.isDigit = true) : c.toUpper = c := by
  have hbounds := toNat_of_isDigit h
  unfold Char.toUpper
  split
  · rename_i hlower
    simp [UInt32.le_iff_toNat_le] at hlower
    omega
  · rfl

theorem startsName_of_isDigit {c : Char} (h : c.isDigit = true) : startsName c = false := by
  have hletter := isLetter_of_isDigit h
  have hline : c ≠ '_' := by rintro rfl; exact absurd h (by decide)
  have hash : c ≠ '#' := by rintro rfl; exact absurd h (by decide)
  simp [startsName, hletter, hline, hash]

theorem continuesName_of_isDigit {c : Char} (h : c.isDigit = true) : continuesName c = true := by
  simp [continuesName, isNumeral_of_isDigit h]

theorem isHexDigit_of_isDigit {c : Char} (h : c.isDigit = true) : isHexDigit c = true := by
  have hbounds : '0' ≤ c ∧ c ≤ '9' := by
    simpa [Char.isDigit, Char.le_def] using h
  simp [isHexDigit, hexValue?, hbounds]

theorem exponentLength_cons_eq_zero_iff {c : Char} {r : List Char} :
    exponentLength (c :: r) = 0 ↔
      ((c = 'e' ∨ c = 'E') → r.head?.any Char.isDigit = false ∧ startsSigned r = false) := by
  by_cases hletter : c = 'e' ∨ c = 'E'
  · cases r with
    | nil => simp [exponentLength, startsSigned]
    | cons sign t =>
        simp only [exponentLength, startsSigned, hletter, if_true, true_imp_iff]
        by_cases hsigned : sign = '+' ∨ sign = '-'
        · have hplain : sign.isDigit = false := by
            rcases hsigned with rfl | rfl <;> decide
          have hmark : (sign == '+' || sign == '-') = true := by simpa using hsigned
          simp only [hsigned, hmark, if_true, List.head?_cons, Option.any_some, hplain, true_and,
            Bool.true_and]
          rw [← digitRun_eq_zero_iff]
          split <;> simp_all
        · have hmark : (sign == '+' || sign == '-') = false := by simpa using hsigned
          simp only [hsigned, hmark, if_false, Bool.false_and, and_true]
          rw [← digitRun_eq_zero_iff]
          split <;> simp_all
  · simp [exponentLength, hletter]

theorem Calmer.digit {r r' : List Char} (h : Calmer r r')
    (hdigit : r'.head?.any Char.isDigit = true) : r.head?.any Char.isDigit = true := by
  obtain ⟨d, hd, hisDigit⟩ := (Option.any_eq_true _ _).mp hdigit
  rcases h.head d hd with hsame | hinert | ⟨-, hdigit⟩
  · exact (Option.any_eq_true _ _).mpr ⟨d, hsame, hisDigit⟩
  · exact absurd hisDigit (by simp [isDigit_of_inert hinert])
  · exact hdigit

theorem Calmer.not_digit {r r' : List Char} (h : Calmer r r')
    (hplain : r.head?.any Char.isDigit = false) : r'.head?.any Char.isDigit = false := by
  rw [← Bool.not_eq_true] at hplain ⊢
  exact mt h.digit hplain

theorem Calmer.mark {r r' : List Char} (h : Calmer r r') {c : Char}
    (hplain : ¬ Inert c ∧ c.isDigit = false) (hc : r'.head? = some c) : r.head? = some c := by
  rcases h.head c hc with hsame | hinert | ⟨hdigit, -⟩
  · exact hsame
  · exact absurd hinert hplain.1
  · exact absurd hdigit (by simp [hplain.2])

theorem Calmer.cons {r r' : List Char} (h : Calmer r r') (c : Char) :
    Calmer (c :: r) (c :: r') where
  head := fun d hd => .inl hd
  number := by
    simp only [startsNumber, Bool.or_eq_true, Bool.and_eq_true]
    exact Or.imp_right (And.imp_right h.digit)
  signed := by
    simp only [startsSigned, Bool.and_eq_true]
    exact And.imp_right h.digit
  exponent := by
    simp only [exponentLength_cons_eq_zero_iff, ← Bool.not_eq_true]
    exact fun hquiet hletter =>
      ⟨fun hdigit => (hquiet hletter).1 (h.digit hdigit),
        fun hsign => (hquiet hletter).2 (h.signed hsign)⟩

theorem Calmer.append {r r' : List Char} (h : Calmer r r') (w : List Char) :
    Calmer (w ++ r) (w ++ r') := by
  induction w with
  | nil => exact h
  | cons c w ih => exact ih.cons c

/-- A character that neither goes on with a number nor starts one. -/
def Quiet (c : Char) : Prop :=
  c.isDigit = false ∧ c ∉ ['.', '+', '-', 'e', 'E']

instance : DecidablePred Quiet :=
  fun c => inferInstanceAs (Decidable (c.isDigit = false ∧ c ∉ ['.', '+', '-', 'e', 'E']))

theorem quiet_of_inert {c : Char} (h : Inert c) : Quiet c := by
  refine ⟨isDigit_of_inert h, ?_⟩
  have hamong := h.not_in (p := (['.', '+', '-', 'e', 'E'].contains ·))
    (forall_mem_of_all (by decide +kernel))
  simpa using hamong

theorem Calmer.of_quiet {r r' : List Char}
    (h : ∀ d ∈ r'.head?, Quiet d ∧ (d ∈ r.head? ∨ Inert d)) : Calmer r r' := by
  cases r' with
  | nil => exact ⟨by simp, by simp [startsNumber], by simp [startsSigned], fun _ => rfl⟩
  | cons d t =>
      obtain ⟨⟨hdigit, hother⟩, -⟩ := h d rfl
      simp only [List.mem_cons, List.not_mem_nil, or_false, not_or] at hother
      obtain ⟨hpoint, hplus, hminus, he, E⟩ := hother
      refine ⟨fun c hc => (h c hc).2.imp_right .inl, ?_, ?_, ?_⟩
      · simp [startsNumber, hdigit, hpoint]
      · simp [startsSigned, hplus, hminus]
      · simp [exponentLength, he, E]

theorem Calmer.of_inert {r r' : List Char} (h : ∀ d ∈ r'.head?, Inert d) : Calmer r r' :=
  Calmer.of_quiet fun d hd => ⟨quiet_of_inert (h d hd), .inr (h d hd)⟩

theorem Calmer.of_digits {c d : Char} (hc : c.isDigit = true) (hd : d.isDigit = true)
    (r r' : List Char) : Calmer (c :: r) (d :: r') := by
  have hother : ∀ b ∈ ['+', '-', 'e', 'E'], d ≠ b := by
    rintro b hb rfl
    have hnone : ∀ b ∈ ['+', '-', 'e', 'E'], b.isDigit = false := forall_mem_of_all (by decide)
    simp [hnone d hb] at hd
  simp only [List.forall_mem_cons] at hother
  obtain ⟨hplus, hminus, he, E, -⟩ := hother
  refine ⟨?_, ?_, ?_, ?_⟩
  · intro b hb
    cases hb
    exact .inr (.inr ⟨hd, hc⟩)
  · simp [startsNumber, hc]
  · simp [startsSigned, hplus, hminus]
  · simp [exponentLength, he, E]

theorem Calmer.stops {p : Char → Bool} {r r' : List Char} (h : Calmer r r')
    (hinert : ∀ {d}, Inert d → p d = false) (hdigits : ∀ {d : Char}, d.isDigit = true → p d = true)
    (hstops : ∀ c ∈ r.head?, p c = false) : ∀ c ∈ r'.head?, p c = false := by
  intro c hc
  rcases h.head c hc with hsame | hcalm | ⟨-, hdigit⟩
  · exact hstops c hsame
  · exact hinert hcalm
  · obtain ⟨d, hd, hisDigit⟩ := (Option.any_eq_true _ _).mp hdigit
    exact absurd (hdigits hisDigit) (by simp [hstops d hd])

/-! ### Parts that reach as far -/

theorem Calmer.run {p : Char → Bool} {w r r' : List Char} (h : Calmer r r')
    (hinert : ∀ {d}, Inert d → p d = false) (hdigits : ∀ {d : Char}, d.isDigit = true → p d = true)
    (hreaches : ((w ++ r).takeWhile p).length = w.length) :
    ((w ++ r').takeWhile p).length = w.length := by
  obtain ⟨hinside, hstops⟩ := run_eq_length_iff.mp hreaches
  exact run_eq_length_iff.mpr ⟨hinside, h.stops hinert hdigits hstops⟩

theorem quotedLength_cons {close c : Char} (h : c ≠ close) {s : List Char} (hsome : s ≠ []) :
    quotedLength close (c :: s) = (quotedLength close s).map (· + 1) := by
  cases s with
  | nil => exact absurd rfl hsome
  | cons d r => simp [quotedLength, h]

theorem quotedLength_append_iff {close : Char} {w r : List Char} :
    quotedLength close (w ++ r) = some w.length ↔
      quotedLength close w = some w.length ∧ close ∉ r.head? := by
  have hzero : ∀ s, quotedLength close s ≠ some 0 := fun s h =>
    absurd (quotedLength_pos h) (by simp)
  fun_induction quotedLength close w with
  | case1 => simpa using hzero r
  | case2 =>
      cases r with
      | nil => simp [quotedLength]
      | cons d r =>
          by_cases hsame : d = close
          · simp [quotedLength, hsame]
          · simp [quotedLength, hsame]
  | case3 c hother =>
      cases r with
      | nil => simp [quotedLength, hother]
      | cons d r => simp [quotedLength, hother, hzero]
  | case4 r' ih => simp_all [quotedLength]
  | case5 d r' hother => simp_all [quotedLength]
  | case6 c d r' hother ih => simp_all [quotedLength]

/-- A comment ends where it ends, whatever follows. -/
theorem commentLength_append {depth : Nat} {w r : List Char}
    (h : commentLength depth (w ++ r) = some w.length) (r' : List Char) :
    commentLength depth (w ++ r') = some w.length := by
  generalize htext : w ++ r = s at h
  fun_induction commentLength depth s generalizing w with
  | case1 => cases h
  | case2 depth t ih =>
      obtain ⟨m, hfound, hlength⟩ := Option.map_eq_some_iff.mp h
      match w, htext, hlength with
      | _ :: _ :: w, htext, hlength =>
        simp only [List.cons_append, List.cons.injEq] at htext
        obtain ⟨rfl, rfl, rfl⟩ := htext
        obtain rfl : m = w.length := by simpa using hlength
        simp [commentLength, ih rfl hfound]
  | case3 t =>
      match w, htext, h with
      | [_, _], htext, h =>
        simp only [List.cons_append, List.cons.injEq] at htext
        obtain ⟨rfl, rfl, -⟩ := htext
        rfl
  | case4 depth t ih =>
      obtain ⟨m, hfound, hlength⟩ := Option.map_eq_some_iff.mp h
      match w, htext, hlength with
      | _ :: _ :: w, htext, hlength =>
        simp only [List.cons_append, List.cons.injEq] at htext
        obtain ⟨rfl, rfl, rfl⟩ := htext
        obtain rfl : m = w.length := by simpa using hlength
        simp [commentLength, ih rfl hfound]
  | case5 depth c t hopens hcloses hclosesOuter ih =>
      obtain ⟨m, hfound, hlength⟩ := Option.map_eq_some_iff.mp h
      have hpos := commentLength_pos hfound
      match w, htext, hlength with
      | [_], _, hlength => exact absurd hlength (by simp; omega)
      | _ :: d :: w, htext, hlength =>
        simp only [List.cons_append, List.cons.injEq] at htext
        obtain ⟨rfl, rfl⟩ := htext
        obtain rfl : m = (d :: w).length := by simpa using hlength
        have hsame := ih rfl hfound
        rw [List.cons_append, commentLength.eq_5, hsame]
        · rfl
        · rintro t rfl hstarts
          exact hopens _ rfl (by cases hstarts; rfl)
        · rintro t rfl rfl hstarts
          exact hcloses _ rfl rfl (by cases hstarts; rfl)
        · rintro n t rfl rfl hstarts
          exact hclosesOuter n _ rfl rfl (by cases hstarts; rfl)

theorem Calmer.exponent_append {w r r' : List Char} (h : Calmer r r')
    (hreaches : exponentLength (w ++ r) = w.length) : exponentLength (w ++ r') = w.length := by
  cases w with
  | nil => exact h.exponent hreaches
  | cons e w =>
      cases w with
      | nil =>
          simp only [List.cons_append, List.nil_append, exponentLength] at hreaches
          grind
      | cons sign t =>
          simp only [List.cons_append, exponentLength] at hreaches ⊢
          have hshort := h.run (p := Char.isDigit) (w := t) isDigit_of_inert id
          have hrun := h.run (p := Char.isDigit) (w := sign :: t) isDigit_of_inert id
          simp only [← digitRun.eq_1, List.cons_append, List.length_cons] at hshort hrun hreaches ⊢
          grind

theorem decimalsLength_cons {c : Char} (h : c.isDigit = true) (s : List Char) :
    decimalsLength (c :: s) = decimalsLength s + 1 := by
  simp only [decimalsLength, digitRun_cons h, List.drop_succ_cons]
  omega

theorem decimalsLength_of_not {s : List Char} (h : s.head?.any Char.isDigit = false) :
    decimalsLength s = exponentLength s := by
  simp [decimalsLength, digitRun_eq_zero_iff.mpr h]

theorem Calmer.decimals_append {w r r' : List Char} (h : Calmer r r')
    (hreaches : decimalsLength (w ++ r) = w.length) : decimalsLength (w ++ r') = w.length := by
  induction w with
  | nil =>
      have hplain : r.head?.any Char.isDigit = false :=
        digitRun_eq_zero_iff.mp (Nat.add_eq_zero_iff.mp hreaches).1
      simp only [List.nil_append, decimalsLength_of_not hplain] at hreaches
      simp only [List.nil_append, decimalsLength_of_not (h.not_digit hplain)]
      exact h.exponent hreaches
  | cons d w ih =>
      simp only [List.cons_append, List.length_cons] at hreaches ⊢
      cases hdigit : d.isDigit with
      | true =>
          rw [decimalsLength_cons hdigit] at hreaches ⊢
          have htail := ih (Nat.succ.inj hreaches)
          omega
      | false =>
          rw [decimalsLength_of_not (by simpa using hdigit)] at hreaches ⊢
          exact h.exponent_append (w := d :: w) hreaches

theorem scaleLength_cons (s : List Char) : scaleLength ('.' :: s) = decimalsLength s + 1 := by
  simp only [scaleLength, fractionLength, List.drop_succ_cons, decimalsLength]
  omega

theorem scaleLength_of_not {s : List Char} (h : s.head? ≠ some '.') :
    scaleLength s = exponentLength s := by
  have hnone : fractionLength s = 0 := by
    unfold fractionLength
    split <;> simp_all
  simp [scaleLength, hnone]

theorem numberLength_cons {c : Char} (h : c.isDigit = true) (s : List Char) :
    numberLength (c :: s) = numberLength s + 1 := by
  simp only [numberLength, digitRun_cons h, List.drop_succ_cons]
  omega

theorem numberLength_append {digits : List Char} (h : ∀ c ∈ digits, c.isDigit = true)
    (s : List Char) : numberLength (digits ++ s) = digits.length + numberLength s := by
  induction digits with
  | nil => simp
  | cons c digits ih =>
      obtain ⟨hfirst, hrest⟩ := List.forall_mem_cons.mp h
      rw [List.cons_append, numberLength_cons hfirst, ih hrest, List.length_cons]
      omega

theorem numberLength_of_not {s : List Char} (h : s.head?.any Char.isDigit = false) :
    numberLength s = scaleLength s := by
  simp [numberLength, digitRun_eq_zero_iff.mpr h]

theorem Calmer.scale_append {w r r' : List Char} (h : Calmer r r')
    (hreaches : scaleLength (w ++ r) = w.length) : scaleLength (w ++ r') = w.length := by
  cases w with
  | nil =>
      have hpoint : r.head? ≠ some '.' := by
        rw [ne_eq, List.head?_eq_some_iff]
        rintro ⟨t, rfl⟩
        simp [scaleLength_cons] at hreaches
      have hpoint' : r'.head? ≠ some '.' := mt (h.mark (by decide)) hpoint
      simp only [List.nil_append, scaleLength_of_not hpoint] at hreaches
      simp only [List.nil_append, scaleLength_of_not hpoint']
      exact h.exponent hreaches
  | cons d w =>
      simp only [List.cons_append, List.length_cons] at hreaches ⊢
      by_cases hpoint : d = '.'
      · rw [hpoint, scaleLength_cons] at hreaches ⊢
        rw [h.decimals_append (Nat.succ.inj hreaches)]
      · have hother : ∀ t, (d :: t).head? ≠ some '.' := by simpa using hpoint
        rw [scaleLength_of_not (hother _)] at hreaches ⊢
        exact h.exponent_append (w := d :: w) hreaches

theorem Calmer.number_append {w r r' : List Char} (h : Calmer r r')
    (hreaches : numberLength (w ++ r) = w.length) : numberLength (w ++ r') = w.length := by
  induction w with
  | nil =>
      have hplain : r.head?.any Char.isDigit = false :=
        digitRun_eq_zero_iff.mp (Nat.add_eq_zero_iff.mp hreaches).1
      simp only [List.nil_append, numberLength_of_not hplain] at hreaches
      simp only [List.nil_append, numberLength_of_not (h.not_digit hplain)]
      exact h.scale_append (w := []) hreaches
  | cons d w ih =>
      simp only [List.cons_append, List.length_cons] at hreaches ⊢
      cases hdigit : d.isDigit with
      | true =>
          rw [numberLength_cons hdigit] at hreaches ⊢
          have htail := ih (Nat.succ.inj hreaches)
          omega
      | false =>
          rw [numberLength_of_not (by simpa using hdigit)] at hreaches ⊢
          exact h.scale_append (w := d :: w) hreaches

theorem decimalsLength_pos {s : List Char} (h : s.head?.any Char.isDigit = true) :
    0 < decimalsLength s := by
  cases s with
  | nil => simp at h
  | cons c s =>
      rw [decimalsLength_cons (by simpa using h)]
      exact Nat.succ_pos _

theorem startsNumber_append {w r : List Char} (hstarts : startsNumber (w ++ r) = true)
    (hreaches : numberLength (w ++ r) = w.length) (r' : List Char) :
    startsNumber (w ++ r') = true := by
  cases w with
  | nil =>
      cases r with
      | nil => simp [startsNumber] at hstarts
      | cons c t =>
          simp only [List.nil_append, startsNumber, Bool.or_eq_true, Bool.and_eq_true,
            beq_iff_eq] at hstarts
          cases hstarts with
          | inl hdigit => simp [numberLength_cons hdigit] at hreaches
          | inr hpoint =>
              rw [hpoint.1, List.nil_append, numberLength_of_not (by rfl),
                scaleLength_cons] at hreaches
              exact absurd hreaches (Nat.succ_ne_zero _)
  | cons d t =>
      simp only [List.cons_append, startsNumber, Bool.or_eq_true, Bool.and_eq_true,
        beq_iff_eq] at hstarts ⊢
      refine hstarts.imp_right fun ⟨hpoint, hdigit⟩ => ⟨hpoint, ?_⟩
      cases t with
      | nil =>
          rw [hpoint, List.cons_append, numberLength_of_not (by rfl), scaleLength_cons] at hreaches
          exact absurd (Nat.succ.inj hreaches) (Nat.ne_of_gt (decimalsLength_pos hdigit))
      | cons e t => exact hdigit

/-! ### The characters of numbers and quotations -/

theorem isBlank_of_isDigit {c : Char} (h : c.isDigit = true) : isBlank c = false := by
  cases hblank : isBlank c with
  | false => rfl
  | true => exact absurd h (by simp [isDigit_of_inert (.inl hblank)])

theorem isBlank_of_run {p : Char → Bool} {w r : List Char} (hnone : ∀ b ∈ blanks, p b = false)
    (hreaches : ((w ++ r).takeWhile p).length = w.length) : ∀ c ∈ w, isBlank c = false := by
  intro c hc
  have hinside := (run_eq_length_iff.mp hreaches).1 c hc
  cases hblank : isBlank c with
  | false => rfl
  | true => exact absurd hinside (by simp [false_of_isBlank hnone hblank])

theorem isBlank_of_exponent {w r : List Char} (hreaches : exponentLength (w ++ r) = w.length) :
    ∀ c ∈ w, isBlank c = false := by
  cases w with
  | nil => simp
  | cons e w =>
      cases w with
      | nil =>
          simp only [List.cons_append, List.nil_append, exponentLength] at hreaches
          grind
      | cons sign t =>
          simp only [List.cons_append, exponentLength] at hreaches
          have hdigits : ∀ b ∈ blanks, b.isDigit = false := forall_mem_of_all (by decide +kernel)
          have hshort := isBlank_of_run (p := Char.isDigit) (w := t) (r := r) hdigits
          have hrun := isBlank_of_run (p := Char.isDigit) (w := sign :: t) (r := r) hdigits
          have hmarks : ∀ c ∈ ['e', 'E', '+', '-'], isBlank c = false :=
            forall_mem_of_all (by decide)
          simp only [← digitRun.eq_1, List.cons_append, List.length_cons] at hshort hrun hreaches ⊢
          grind

theorem isBlank_of_decimals {w r : List Char} (hreaches : decimalsLength (w ++ r) = w.length) :
    ∀ c ∈ w, isBlank c = false := by
  induction w with
  | nil => simp
  | cons d w ih =>
      simp only [List.cons_append, List.length_cons] at hreaches
      cases hdigit : d.isDigit with
      | true =>
          rw [decimalsLength_cons hdigit] at hreaches
          exact List.forall_mem_cons.mpr ⟨isBlank_of_isDigit hdigit, ih (Nat.succ.inj hreaches)⟩
      | false =>
          rw [decimalsLength_of_not (by simpa using hdigit)] at hreaches
          exact isBlank_of_exponent (w := d :: w) hreaches

theorem isBlank_of_scale {w r : List Char} (hreaches : scaleLength (w ++ r) = w.length) :
    ∀ c ∈ w, isBlank c = false := by
  cases w with
  | nil => simp
  | cons d w =>
      simp only [List.cons_append, List.length_cons] at hreaches
      by_cases hpoint : d = '.'
      · rw [hpoint, scaleLength_cons] at hreaches
        have htail := isBlank_of_decimals (Nat.succ.inj hreaches)
        exact List.forall_mem_cons.mpr ⟨by rw [hpoint]; decide, htail⟩
      · have hother : ∀ t, (d :: t).head? ≠ some '.' := by simpa using hpoint
        rw [scaleLength_of_not (hother _)] at hreaches
        exact isBlank_of_exponent (w := d :: w) hreaches

theorem isBlank_of_number {w r : List Char} (hreaches : numberLength (w ++ r) = w.length) :
    ∀ c ∈ w, isBlank c = false := by
  induction w with
  | nil => simp
  | cons d w ih =>
      simp only [List.cons_append, List.length_cons] at hreaches
      cases hdigit : d.isDigit with
      | true =>
          rw [numberLength_cons hdigit] at hreaches
          exact List.forall_mem_cons.mpr ⟨isBlank_of_isDigit hdigit, ih (Nat.succ.inj hreaches)⟩
      | false =>
          rw [numberLength_of_not (by simpa using hdigit)] at hreaches
          exact isBlank_of_scale (w := d :: w) hreaches

theorem getLast_of_quoted {close : Char} {w : List Char}
    (h : quotedLength close w = some w.length) : w.getLast? = some close := by
  fun_induction quotedLength close w with
  | case1 => simp at h
  | case2 => rfl
  | case3 => simp at h
  | case4 r ih =>
      have hlast := ih (by simpa using h)
      cases r with
      | nil => simp at hlast
      | cons d r => simpa using hlast
  | case5 d r hother => simp at h
  | case6 c d r hother ih => simpa using ih (by simpa using h)

theorem getLast_of_comment {depth : Nat} {w : List Char}
    (h : commentLength depth w = some w.length) : w.getLast? = some '/' := by
  fun_induction commentLength depth w with
  | case1 => cases h
  | case2 depth t ih =>
      have hlast := ih (by simpa using h)
      cases t with
      | nil => simp at hlast
      | cons d t => simpa using hlast
  | case3 t =>
      cases t with
      | nil => rfl
      | cons d t => simp at h
  | case4 depth t ih =>
      have hlast := ih (by simpa using h)
      cases t with
      | nil => simp at hlast
      | cons d t => simpa using hlast
  | case5 depth c t hopens hcloses hclosesOuter ih =>
      have hlast := ih (by simpa using h)
      cases t with
      | nil => simp at hlast
      | cons d t => simpa using hlast

end DeadlockCapture.Sql
