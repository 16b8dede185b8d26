import DeadlockCapture.Proofs.Text.Runs
import Mathlib.Algebra.Ring.Nat

/-!
Numbers in decimal digits read back. The digits of a number are a run that ends where the text after
them does not go on with a digit, and their value is the number, whatever zeros stand in front. A
reader of signed numbers accepts digits with or without a sign, and nothing else.
-/

namespace DeadlockCapture.Text

theorem hexValue?_of_isDigit {c : Char} (h : c.isDigit = true) :
    hexValue? c = some (c.toNat - 0x30) := by
  have hrange : '0' ≤ c ∧ c ≤ '9' := Char.isDigit_iff_toNat.1 h
  rw [hexValue?, if_pos hrange]

theorem foldl_digits {digits : List Char} (h : ∀ c ∈ digits, c.isDigit = true) (start : Nat) :
    digits.foldl (fun n c => n * 10 + (hexValue? c).getD 0) start =
      Nat.ofDigitChars 10 digits start := by
  induction digits generalizing start with
  | nil => rfl
  | cons c r ih =>
      obtain ⟨hc, hr⟩ := List.forall_mem_cons.1 h
      rw [List.foldl_cons, ih hr, hexValue?_of_isDigit hc, Nat.mul_comm start 10]
      rfl

theorem isDigit_of_mem_decimal {n : Nat} {c : Char} (h : c ∈ decimal n) : c.isDigit = true :=
  Nat.isDigit_of_mem_toDigits (by decide) (by decide) h

theorem decimal_ne_nil (n : Nat) : decimal n ≠ [] :=
  Nat.toDigits_ne_nil

theorem valueOf_decimal (n : Nat) : valueOf 10 (decimal n) = n := by
  rw [valueOf, foldl_digits fun c hc => isDigit_of_mem_decimal hc]
  exact Nat.ofDigitChars_ten_toDigits

/-- The digits of a positive number do not start with a zero. -/
theorem head?_decimal {n : Nat} (h : 0 < n) : (decimal n).head? ≠ some '0' := by
  induction n using Nat.strongRecOn with
  | ind n ih =>
      rw [decimal, Nat.toDigits_eq_if (by decide)]
      split
      · rw [List.head?_singleton, Ne, Option.some.injEq, Nat.digitChar_eq_zero]
        omega
      · obtain ⟨c, r, hdigits⟩ := List.exists_cons_of_ne_nil (decimal_ne_nil (n / 10))
        have hfront := ih (n / 10) (by omega) (by omega)
        rw [hdigits] at hfront
        rw [← decimal, hdigits]
        exact hfront

theorem isDigit_of_mem_padded {width n : Nat} {c : Char} (h : c ∈ padded width n) :
    c.isDigit = true := by
  rcases List.mem_append.1 h with hzero | hdigit
  · rw [List.eq_of_mem_replicate hzero]
    rfl
  · exact isDigit_of_mem_decimal hdigit

theorem valueOf_padded (width n : Nat) : valueOf 10 (padded width n) = n := by
  have hzeros (k : Nat) : (List.replicate k '0').foldl
      (fun n c => n * 10 + (hexValue? c).getD 0) 0 = 0 := by
    induction k with
    | zero => rfl
    | succ k ih => exact ih
  rw [padded, valueOf, List.foldl_append, hzeros]
  exact valueOf_decimal n

theorem length_padded {width n : Nat} (hwidth : 0 < width) (h : n < 10 ^ width) :
    (padded width n).length = width := by
  have hle : (decimal n).length ≤ width := (Nat.length_toDigits_le_iff (by decide) hwidth).2 h
  rw [padded, List.length_append, List.length_replicate]
  omega

theorem padded_ne_nil (width n : Nat) : padded width n ≠ [] := by
  simp [padded, decimal_ne_nil]

/-- A run of digits ends where no digit follows. -/
theorem digitRun_append {digits rest : List Char} (hdigits : ∀ c ∈ digits, c.isDigit = true)
    (hrest : ∀ c ∈ rest.head?, c.isDigit = false) : digitRun (digits ++ rest) = digits.length :=
  run_eq_length_iff.2 ⟨hdigits, hrest⟩

theorem natural?_eq_some_iff {s : List Char} {n : Nat} :
    natural? s = some n ↔ s ≠ [] ∧ (∀ c ∈ s, c.isDigit = true) ∧ valueOf 10 s = n := by
  have hdigits : s.any (fun c => !c.isDigit) = false ↔ ∀ c ∈ s, c.isDigit = true := by simp
  rw [natural?, ← hdigits]
  cases s <;> grind

/-- A text writes a whole number: decimal digits, with or without a sign in front. -/
inductive WritesWhole : List Char → Int → Prop
  | plain {digits : List Char} : digits ≠ [] → (∀ c ∈ digits, c.isDigit = true) →
      WritesWhole digits (valueOf 10 digits)
  | plus {digits : List Char} : digits ≠ [] → (∀ c ∈ digits, c.isDigit = true) →
      WritesWhole ('+' :: digits) (valueOf 10 digits)
  | minus {digits : List Char} : digits ≠ [] → (∀ c ∈ digits, c.isDigit = true) →
      WritesWhole ('-' :: digits) (-(valueOf 10 digits : Int))

theorem map_natural?_eq_some_iff {s : List Char} {f : Int → Int} {z : Int} :
    (do let n ← natural? s; pure (n : Int)).map f = some z ↔
      s ≠ [] ∧ (∀ c ∈ s, c.isDigit = true) ∧ f (valueOf 10 s) = z := by
  have hboth : (do let n ← natural? s; pure (n : Int)).map f = some z ↔
      ∃ n, natural? s = some n ∧ f n = z := by
    cases natural? s <;> simp
  simp only [hboth, natural?_eq_some_iff]
  grind

theorem signed?_eq_some_iff {least greatest z : Int} {s : List Char} :
    signed? least greatest s = some z ↔ WritesWhole s z ∧ least ≤ z ∧ z ≤ greatest := by
  unfold signed?
  rw [Option.filter_eq_some_iff, decide_eq_true_eq]
  refine and_congr_left fun _ => ?_
  split <;> rw [map_natural?_eq_some_iff]
  · constructor
    · rintro ⟨hsome, hdigits, rfl⟩
      exact .minus hsome hdigits
    · intro h
      cases h with
      | plain hsome hdigits => exact absurd (hdigits '-' List.mem_cons_self) (by decide)
      | minus hsome hdigits => exact ⟨hsome, hdigits, rfl⟩
  · constructor
    · rintro ⟨hsome, hdigits, rfl⟩
      exact .plus hsome hdigits
    · intro h
      cases h with
      | plain hsome hdigits => exact absurd (hdigits '+' List.mem_cons_self) (by decide)
      | plus hsome hdigits => exact ⟨hsome, hdigits, rfl⟩
  · rename_i hnoMinus hnoPlus
    constructor
    · rintro ⟨hsome, hdigits, rfl⟩
      exact .plain hsome hdigits
    · intro h
      cases h with
      | plain hsome hdigits => exact ⟨hsome, hdigits, rfl⟩
      | plus => exact absurd rfl (hnoPlus _)
      | minus => exact absurd rfl (hnoMinus _)

end DeadlockCapture.Text
