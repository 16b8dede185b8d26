import DeadlockCapture.Proofs.Text.Runs
import DeadlockCapture.Text.Blank

/-!
The blank characters one by one, and what trimming takes away.
-/

namespace DeadlockCapture.Text

def blanks : List Char :=
  [9, 10, 11, 12, 13, 0x20, 0x85, 0xA0, 0x1680, 0x2000, 0x2001, 0x2002, 0x2003, 0x2004, 0x2005,
    0x2006, 0x2007, 0x2008, 0x2009, 0x200A, 0x2028, 0x2029, 0x202F, 0x205F, 0x3000].map Char.ofNat

theorem mem_blanks {c : Char} (h : isBlank c = true) : c ∈ blanks := by
  refine List.mem_map.mpr ⟨c.toNat, ?_, Char.ofNat_toNat c⟩
  simp only [isBlank, Bool.or_eq_true, Bool.and_eq_true, decide_eq_true_eq, beq_iff_eq] at h
  simp only [List.mem_cons, List.not_mem_nil, or_false]
  omega

theorem isBlank_of_mem {c : Char} (h : c ∈ blanks) : isBlank c = true := by
  have hall : ∀ b ∈ blanks, isBlank b = true := forall_mem_of_all (by decide)
  exact hall c h

/-- A class that holds none of the blank characters holds no blank. -/
theorem false_of_isBlank {p : Char → Bool} (hnone : ∀ b ∈ blanks, p b = false) {c : Char}
    (h : isBlank c = true) : p c = false :=
  hnone c (mem_blanks h)

theorem trimLeft_split (s : List Char) :
    ∃ front, s = front ++ trimLeft s ∧ ∀ c ∈ front, isBlank c = true := by
  refine ⟨s.takeWhile isBlank, List.takeWhile_append_dropWhile.symm, ?_⟩
  intro c hc
  exact List.all_eq_true.mp List.all_takeWhile c hc

theorem trimRight_split (s : List Char) :
    ∃ back, s = trimRight s ++ back ∧ ∀ c ∈ back, isBlank c = true := by
  obtain ⟨front, hsame, hblank⟩ := trimLeft_split s.reverse
  refine ⟨front.reverse, ?_, fun c hc => hblank c (List.mem_reverse.mp hc)⟩
  have hturned := congrArg List.reverse hsame
  simpa only [trimRight, trimLeft, List.reverse_reverse, List.reverse_append] using hturned

/-- Trimming takes blanks away at both ends and nothing else. -/
theorem trim_split (s : List Char) :
    ∃ front back, s = front ++ trim s ++ back ∧ (∀ c ∈ front, isBlank c = true) ∧
      ∀ c ∈ back, isBlank c = true := by
  obtain ⟨front, hsame, hfront⟩ := trimLeft_split s
  obtain ⟨back, hsame', hback⟩ := trimRight_split (trimLeft s)
  refine ⟨front, back, ?_, hfront, hback⟩
  rw [List.append_assoc, trim, ← hsame', ← hsame]

theorem trimLeft_of_plain {s : List Char} (hfirst : ∀ c ∈ s.head?, isBlank c = false) :
    trimLeft s = s := by
  cases s with
  | nil => rfl
  | cons c s => simp [trimLeft, hfirst c rfl]

theorem trimRight_of_plain {s : List Char} (hlast : ∀ c ∈ s.getLast?, isBlank c = false) :
    trimRight s = s := by
  have hturned : trimLeft s.reverse = s.reverse := trimLeft_of_plain (by simpa using hlast)
  rw [trimRight, ← trimLeft.eq_def, hturned, List.reverse_reverse]

/-- A text without blanks at its ends is left as it is. -/
theorem trim_of_plain {s : List Char} (hfirst : ∀ c ∈ s.head?, isBlank c = false)
    (hlast : ∀ c ∈ s.getLast?, isBlank c = false) : trim s = s := by
  rw [trim, trimLeft_of_plain hfirst, trimRight_of_plain hlast]

theorem trimLeft_of_blank {s : List Char} (hblank : ∀ c ∈ s, isBlank c = true) :
    trimLeft s = [] := by
  induction s with
  | nil => rfl
  | cons c s ih =>
      obtain ⟨hfirst, hrest⟩ := List.forall_mem_cons.mp hblank
      rw [trimLeft, List.dropWhile_cons_of_pos hfirst]
      exact ih hrest

theorem trim_of_blank {s : List Char} (hblank : ∀ c ∈ s, isBlank c = true) : trim s = [] := by
  rw [trim, trimLeft_of_blank hblank]
  rfl

theorem blank_of_trim {s : List Char} (h : trim s = []) : ∀ c ∈ s, isBlank c = true := by
  obtain ⟨front, back, hsplit, hfront, hback⟩ := trim_split s
  rw [h, List.append_nil] at hsplit
  rw [hsplit]
  exact List.forall_mem_append.mpr ⟨hfront, hback⟩

/-- A trimmed text does not end in a blank. -/
theorem isBlank_of_getLast?_trim {s : List Char} {c : Char} (hlast : (trim s).getLast? = some c) :
    isBlank c = false := by
  have hstops := List.head?_dropWhile_not isBlank (trimLeft s).reverse
  rw [trim, trimRight, List.getLast?_reverse] at hlast
  rw [hlast] at hstops
  exact hstops

theorem mem_of_mem_trim {s : List Char} {c : Char} (h : c ∈ trim s) : c ∈ s := by
  obtain ⟨front, back, hsplit, -, -⟩ := trim_split s
  rw [hsplit]
  simp [h]

end DeadlockCapture.Text
