import DeadlockCapture.Time.Calendar
import Mathlib.Algebra.Ring.Nat

/-!
Days and dates correspond: the date of a day is one that exists, and it leads back to the day.
-/

namespace DeadlockCapture.Time

theorem yearStart_yearOf (day : Int) :
    yearStart (yearOf day) ≤ day ∧ day < yearStart (yearOf day + 1) := by
  simp only [yearOf]
  split
  · rename_i hbefore
    refine ⟨?_, by rwa [Int.sub_add_cancel]⟩
    simp only [yearStart] at hbefore ⊢
    omega
  · rename_i hstart
    split
    · rename_i hafter
      refine ⟨hafter, ?_⟩
      simp only [yearStart] at hafter ⊢
      omega
    · rename_i hend
      exact ⟨Int.not_lt.1 hstart, Int.not_le.1 hend⟩

theorem isLeapYear_iff (year : Int) :
    isLeapYear year = true ↔ year % 4 = 0 ∧ (year % 100 ≠ 0 ∨ year % 400 = 0) := by
  simp [isLeapYear]

/-- The months of a year fill it. -/
theorem sum_monthLengths (year : Int) :
    ((monthLengths year).sum : Int) = yearStart (year + 1) - yearStart year := by
  by_cases hleap : isLeapYear year = true
  · rw [monthLengths, if_pos hleap]
    rw [isLeapYear_iff] at hleap
    simp only [yearStart, List.sum_cons, List.sum_nil]
    omega
  · rw [monthLengths, if_neg hleap]
    rw [isLeapYear_iff] at hleap
    simp only [yearStart, List.sum_cons, List.sum_nil]
    omega

/-- The month found for a day of the year is one of the months, and the day lies in it. -/
theorem monthOf_spec (month : Nat) {n : Nat} {lengths : List Nat} (h : n < lengths.sum) :
    ∃ (k : Nat) (hk : k < lengths.length), (monthOf month lengths n).1 = month + k ∧
      0 < (monthOf month lengths n).2 ∧ (monthOf month lengths n).2 ≤ lengths[k] ∧
      (lengths.take k).sum + (monthOf month lengths n).2 = n + 1 := by
  induction lengths generalizing month n with
  | nil => simp at h
  | cons length rest ih =>
      rw [List.sum_cons] at h
      by_cases hn : n < length
      · refine ⟨0, Nat.zero_lt_succ _, ?_⟩
        simp only [monthOf, if_pos hn, List.getElem_cons_zero, List.take_zero, List.sum_nil]
        omega
      · have hinner : n - length < rest.sum := by omega
        obtain ⟨k, hk, hmonth, hpos, hle, hsum⟩ := ih (month + 1) hinner
        refine ⟨k + 1, Nat.succ_lt_succ hk, ?_⟩
        simp only [monthOf, if_neg hn, List.getElem_cons_succ, List.take_succ_cons, List.sum_cons]
        exact ⟨by omega, hpos, hle, by omega⟩

theorem foldl_add_eq_sum (lengths : List Nat) : lengths.foldl Nat.add 0 = lengths.sum := by
  rw [List.sum_eq_foldl]
  rfl

theorem length_monthLengths (year : Int) : (monthLengths year).length = 12 :=
  rfl

theorem monthLengths_le {year : Int} {length : Nat} (h : length ∈ monthLengths year) :
    length ≤ 31 := by
  simp only [monthLengths, List.mem_cons, List.not_mem_nil, or_false] at h
  split at h <;> omega

/-- Where the date of a day stands: in a month of its year, as many days after the year's start. -/
theorem Date.ofDay_place (day : Int) :
    ∃ (k : Nat) (hk : k < (monthLengths (yearOf day)).length), (Date.ofDay day).month = 1 + k ∧
      0 < (Date.ofDay day).day ∧ (Date.ofDay day).day ≤ (monthLengths (yearOf day))[k] ∧
      (((monthLengths (yearOf day)).take k).sum : Int) + (Date.ofDay day).day =
        day - yearStart (yearOf day) + 1 := by
  obtain ⟨hstart, hend⟩ := yearStart_yearOf day
  have hsum := sum_monthLengths (yearOf day)
  have hinside : (day - yearStart (yearOf day)).toNat < (monthLengths (yearOf day)).sum := by omega
  obtain ⟨k, hk, hmonth, hpos, hle, hdays⟩ := monthOf_spec 1 hinside
  refine ⟨k, hk, hmonth, hpos, hle, ?_⟩
  simp only [Date.ofDay]
  omega

theorem Date.exists_ofDay (day : Int) : (Date.ofDay day).exists = true := by
  obtain ⟨k, hk, hmonth, hpos, hle, -⟩ := Date.ofDay_place day
  have hplace : (Date.ofDay day).month - 1 = k := by omega
  have hfound : (monthLengths (Date.ofDay day).year)[k]? = some (monthLengths (yearOf day))[k] :=
    List.getElem?_eq_getElem hk
  simp only [Date.exists, hplace, hfound, Option.any_some, Bool.and_eq_true, bne_iff_ne,
    decide_eq_true_eq]
  omega

theorem Date.toDay_ofDay (day : Int) : (Date.ofDay day).toDay = day := by
  obtain ⟨k, -, hmonth, -, -, hdays⟩ := Date.ofDay_place day
  have hplace : (Date.ofDay day).month - 1 = k := by omega
  have hyear : (Date.ofDay day).year = yearOf day := rfl
  rw [Date.toDay, hplace, hyear, foldl_add_eq_sum]
  omega

theorem Date.ofDay_le (day : Int) : (Date.ofDay day).month ≤ 12 ∧ (Date.ofDay day).day ≤ 31 := by
  obtain ⟨k, hk, hmonth, -, hle, -⟩ := Date.ofDay_place day
  have hmost : (monthLengths (yearOf day))[k] ≤ 31 := monthLengths_le (List.getElem_mem hk)
  rw [length_monthLengths] at hk
  omega

end DeadlockCapture.Time
