import DeadlockCapture.Proofs.Text.Blank
import DeadlockCapture.Proofs.Text.Digits
import DeadlockCapture.Proofs.Time.Calendar
import DeadlockCapture.Time.InstantText

/-!
The text of an instant is read as that instant: in years of any number of digits and before the year
0, with any fraction of a second, and in leap seconds.
-/

namespace DeadlockCapture.Time

open DeadlockCapture.Text

theorem isBlank_of_isDigit {c : Char} (h : c.isDigit = true) : isBlank c = false := by
  have hrange : 48 ≤ c.toNat ∧ c.toNat ≤ 57 := Char.isDigit_iff_toNat.1 h
  simp only [isBlank, Bool.or_eq_false_iff, Bool.and_eq_false_iff, decide_eq_false_iff_not,
    beq_eq_false_iff_ne]
  omega

theorem trimLeft_digits {digits : List Char} (h : ∀ c ∈ digits, c.isDigit = true)
    (hne : digits ≠ []) (rest : List Char) : trimLeft (digits ++ rest) = digits ++ rest := by
  obtain ⟨c, r, rfl⟩ := List.exists_cons_of_ne_nil hne
  refine trimLeft_of_plain fun d hd => ?_
  obtain rfl : c = d := by simpa using hd
  exact isBlank_of_isDigit (h c List.mem_cons_self)

/-- Digits are read as a number where they fill the width or no digit follows. -/
theorem number?_digits {width : Nat} {digits rest : List Char}
    (h : ∀ c ∈ digits, c.isDigit = true) (hne : digits ≠ []) (hle : digits.length ≤ width)
    (hstop : digits.length = width ∨ ∀ c ∈ rest.head?, c.isDigit = false) :
    number? width (digits ++ rest) = some (valueOf 10 digits, rest) := by
  have hrun : digits.length ≤ digitRun (digits ++ rest) := by
    rw [digitRun, List.takeWhile_append_of_pos h, List.length_append]
    omega
  have hcount : min width (digitRun (digits ++ rest)) = digits.length := by
    rcases hstop with hfull | hstop
    · omega
    · rw [digitRun_append h hstop]
      omega
  have hpos : digits.length ≠ 0 := by simpa using hne
  simp only [number?, hcount, if_neg hpos, List.take_left, List.drop_left]

theorem number?_padded {width n : Nat} (hwidth : 0 < width) (h : n < 10 ^ width)
    (rest : List Char) : number? width (padded width n ++ rest) = some (n, rest) := by
  have hlength := length_padded hwidth h
  rw [number?_digits (fun c hc => isDigit_of_mem_padded hc) (padded_ne_nil width n)
    (Nat.le_of_eq hlength) (.inl hlength), valueOf_padded]

theorem twoDigits?_padded {n : Nat} (h : n < 100) (rest : List Char) :
    twoDigits? (padded 2 n ++ rest) = some (n, rest) := by
  rw [twoDigits?, trimLeft_digits (fun c hc => isDigit_of_mem_padded hc) (padded_ne_nil 2 n),
    number?_padded (by decide) h]

theorem mark?_cons {mark : Char} (h : isBlank mark = false) (rest : List Char) :
    mark? mark (mark :: rest) = some rest := by
  rw [mark?, trimLeft_of_plain (by simpa using h)]
  exact if_pos rfl

/-- Digits up to the mark after them are read whatever their number. -/
theorem number?_signed (n : Nat) (rest : List Char) :
    number? (padded 4 n ++ '-' :: rest).length (padded 4 n ++ '-' :: rest) =
      some (n, '-' :: rest) := by
  rw [number?_digits (fun c hc => isDigit_of_mem_padded hc) (padded_ne_nil 4 n)
    (by simp) (.inr (by simp)), valueOf_padded]

/-- Without a sign a year has four digits. -/
theorem year?_of_isDigit {s : List Char} (h : ∃ c ∈ s.head?, c.isDigit = true) :
    year? s = (number? 4 s).map fun (n, t) => ((n : Int), t) := by
  obtain ⟨c, hc, hdigit⟩ := h
  have hplain : trimLeft s = s := trimLeft_of_plain fun d hd => by
    obtain rfl : c = d := Option.some.inj (hc.symm.trans hd)
    exact isBlank_of_isDigit hdigit
  rw [year?, hplain]
  split
  · obtain rfl : '-' = c := Option.some.inj hc
    cases hdigit
  · obtain rfl : '+' = c := Option.some.inj hc
    cases hdigit
  · rfl

theorem year?_minus (n : Nat) (rest : List Char) :
    year? ('-' :: (padded 4 n ++ '-' :: rest)) = some (-(n : Int), '-' :: rest) := by
  have hplain : isBlank '-' = false := by decide
  rw [year?, trimLeft_of_plain (by simpa using hplain)]
  simp only [number?_signed, Option.map_some]

theorem year?_plus (n : Nat) (rest : List Char) :
    year? ('+' :: (padded 4 n ++ '-' :: rest)) = some ((n : Int), '-' :: rest) := by
  have hplain : isBlank '+' = false := by decide
  rw [year?, trimLeft_of_plain (by simpa using hplain)]
  simp only [number?_signed, Option.map_some]

/-- A year is read up to the mark after it, whatever its sign and however many digits it has. -/
theorem year?_yearText (year : Int) (rest : List Char) :
    year? (yearText year ++ '-' :: rest) = some (year, '-' :: rest) := by
  by_cases hplain : 0 ≤ year ∧ year ≤ 9999
  · obtain ⟨c, r, hdigits⟩ := List.exists_cons_of_ne_nil (padded_ne_nil 4 year.toNat)
    have hdigit : c.isDigit = true := isDigit_of_mem_padded (hdigits ▸ List.mem_cons_self)
    rw [yearText, if_pos hplain, year?_of_isDigit ⟨c, by rw [hdigits]; rfl, hdigit⟩,
      number?_padded (by decide) (by omega), Option.map_some]
    simp only [Int.toNat_of_nonneg hplain.1]
  · by_cases hnegative : year < 0
    · rw [yearText, if_neg hplain, if_pos hnegative, List.cons_append, year?_minus]
      congr 2
      omega
    · rw [yearText, if_neg hplain, if_neg hnegative, List.cons_append, year?_plus]
      congr 2
      omega

theorem date?_text {d : Date} (hmonth : d.month < 100) (hday : d.day < 100) (rest : List Char) :
    date? (yearText d.year ++ '-' :: (padded 2 d.month ++ '-' :: (padded 2 d.day ++ rest))) =
      some (d, rest) := by
  have hmark : isBlank '-' = false := by decide
  simp only [date?, year?_yearText, mark?_cons hmark, twoDigits?_padded hmonth,
    twoDigits?_padded hday, Option.bind_eq_bind, Option.bind_some]

/-- A fraction of 3, 6 or 9 digits is read as its nanoseconds. -/
theorem fraction?_digits {width n : Nat} (hwidth : 0 < width) (hle : width ≤ 9) (h : n < 10 ^ width)
    {rest : List Char} (hstop : ∀ c ∈ rest.head?, c.isDigit = false) :
    fraction? ('.' :: (padded width n ++ rest)) = some (n * 10 ^ (9 - width), rest) := by
  have hlength := length_padded hwidth h
  have hread : number? 9 (padded width n ++ rest) = some (n, rest) := by
    rw [number?_digits (fun c hc => isDigit_of_mem_padded hc) (padded_ne_nil width n) (by omega)
      (.inr hstop), valueOf_padded]
  have hrest : rest.dropWhile Char.isDigit = rest := by
    cases rest with
    | nil => rfl
    | cons c r => exact List.dropWhile_cons_of_neg (by simp [hstop c rfl])
  simp only [fraction?, hread, Option.map_some, hrest, List.length_append, hlength,
    Nat.add_sub_cancel]
  rfl

theorem fraction?_fractionText {nano : Nat} (h : nano < 1000000000) :
    fraction? (fractionText nano ++ ['Z']) = some (nano, ['Z']) := by
  have hstop : ∀ c ∈ ['Z'].head?, c.isDigit = false := by simp
  rw [fractionText]
  split
  · rename_i hzero
    rw [hzero]
    rfl
  · split
    · rw [List.cons_append, fraction?_digits (by decide) (by decide) (by omega) hstop]
      congr 2
      omega
    · split
      · rw [List.cons_append, fraction?_digits (by decide) (by decide) (by omega) hstop]
        congr 2
        omega
      · rw [List.cons_append, fraction?_digits (by decide) (by decide) h hstop]
        congr 2
        omega

theorem clock?_text {c : Clock} (hhour : c.hour < 100) (hminute : c.minute < 100)
    (hsecond : c.second < 100) (hnano : c.nano < 1000000000) :
    clock? (padded 2 c.hour ++ ':' :: (padded 2 c.minute ++ ':' :: (padded 2 c.second ++
      (fractionText c.nano ++ ['Z'])))) = some (c, ['Z']) := by
  have hmark : isBlank ':' = false := by decide
  simp only [clock?, twoDigits?_padded hhour, twoDigits?_padded hminute,
    twoDigits?_padded hsecond, mark?_cons hmark, fraction?_fractionText hnano,
    Option.bind_eq_bind, Option.bind_some]

theorem zone?_universal : zone? ['Z'] = some (0, []) := by
  decide

namespace Instant

/-- The date that an instant shows. -/
def date (t : Instant) : Date :=
  .ofDay (t.second / daySeconds)

/-- The time of day that an instant shows; a leap second is second 60. -/
def clock (t : Instant) : Clock :=
  let clock := (t.second % daySeconds).toNat
  let leap := if t.isLeap then 1 else 0
  ⟨clock / 3600, clock / 60 % 60, clock % 60 + leap, t.nano - leap * secondNanos⟩

theorem chars_eq (t : Instant) :
    t.chars = yearText t.date.year ++ '-' :: (padded 2 t.date.month ++ '-' ::
      (padded 2 t.date.day ++ 'T' :: (padded 2 t.clock.hour ++ ':' ::
        (padded 2 t.clock.minute ++ ':' :: (padded 2 t.clock.second ++
          (fractionText t.clock.nano ++ ['Z'])))))) := by
  simp only [chars, date, clock, List.append_assoc, List.cons_append]

theorem of?_self (t : Instant) : of? t.second t.nano = some t := by
  rw [of?, dif_pos ⟨t.first_le, t.le_last, t.nano_lt, t.leap_last⟩]

theorem isLeap_iff (t : Instant) : t.isLeap = true ↔ secondNanos ≤ t.nano := by
  rw [isLeap, decide_eq_true_eq]

/-- Just a leap second is shown as second 60. -/
theorem clock_second (t : Instant) :
    t.clock.second = ((t.second % daySeconds).toNat % 60) + (if t.isLeap then 1 else 0) ∧
      (t.clock.second = 60 ↔ t.isLeap = true) := by
  refine ⟨rfl, ?_⟩
  by_cases hleap : t.isLeap = true
  · have hlast := t.leap_last ((isLeap_iff t).1 hleap)
    simp only [clock, hleap, if_true, daySeconds, iff_true]
    omega
  · simp only [clock, hleap, Bool.false_eq_true, if_false, iff_false]
    omega

theorem clock_lt (t : Instant) :
    t.clock.hour < 24 ∧ t.clock.minute < 60 ∧ t.clock.second ≤ 60 ∧ t.clock.nano < 1000000000 := by
  have hnano := t.nano_lt
  simp only [secondNanos] at hnano
  by_cases hleap : t.isLeap = true
  · simp only [clock, if_pos hleap, daySeconds, secondNanos]
    omega
  · have hshort : ¬ secondNanos ≤ t.nano := fun h => hleap ((isLeap_iff t).2 h)
    simp only [secondNanos] at hshort
    simp only [clock, if_neg hleap, daySeconds]
    omega

/-- The parts that an instant shows are those of the instant. -/
theorem ofParts?_shown (t : Instant) : ofParts? t.date t.clock 0 = some t := by
  obtain ⟨hhour, hminute, hsecond, -⟩ := clock_lt t
  obtain ⟨hshown, hsixty⟩ := clock_second t
  have hexists : t.date.exists = true ∧ t.clock.exists = true ∧
      (0 : Int).natAbs < daySeconds.toNat :=
    ⟨Date.exists_ofDay _, by simp [Clock.exists, hhour, hminute, hsecond], by decide⟩
  have hleap : (if t.clock.second = 60 then 1 else 0) = if t.isLeap = true then 1 else 0 := by
    simp only [hsixty]
  have hhere : t.date.toDay * daySeconds + (t.clock.hour * 3600 + t.clock.minute * 60 +
      (t.clock.second - (if t.isLeap = true then 1 else 0)) : Nat) = t.second := by
    rw [date, Date.toDay_ofDay, hshown, Nat.add_sub_cancel]
    simp only [clock, daySeconds]
    omega
  have hnano : t.clock.nano + (if t.isLeap = true then 1 else 0) * secondNanos = t.nano := by
    by_cases h : t.isLeap = true
    · have := (isLeap_iff t).1 h
      simp only [clock, if_pos h]
      omega
    · simp [clock, if_neg h]
  rw [ofParts?, if_pos hexists]
  simp only [hleap, hhere, hnano, of?_self, Option.bind_eq_bind, Option.bind_some, Int.sub_zero]

/-- The text of an instant is read as the instant. -/
theorem ofText?_text (t : Instant) : ofText? t.text = some t := by
  obtain ⟨hhour, hminute, hsecond, hnano⟩ := clock_lt t
  obtain ⟨hmonth, hday⟩ := Date.ofDay_le (t.second / daySeconds)
  have hdate := date?_text (d := t.date) (Nat.lt_of_le_of_lt hmonth (by decide))
    (Nat.lt_of_le_of_lt hday (by decide))
  have hclock := clock?_text (c := t.clock) (by omega) (by omega) (by omega) hnano
  rw [ofText?, text, String.toList_ofList, chars_eq]
  simp only [hdate, hclock, zone?_universal, Option.bind_eq_bind, Option.bind_some]
  exact ofParts?_shown t

end Instant

end DeadlockCapture.Time
