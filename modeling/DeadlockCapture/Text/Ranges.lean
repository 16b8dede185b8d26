/-!
Membership of code points in a table of closed ranges. The character classes of this library are
such tables beside a direct rule for ASCII.
-/

namespace DeadlockCapture.Text

/-- Closed ranges of code points, in ascending order. -/
abbrev Ranges := List (Nat × Nat)

def Ranges.holds (ranges : Ranges) (code : Nat) : Bool :=
  ranges.any fun range => decide (range.1 ≤ code) && decide (code ≤ range.2)

theorem Ranges.holds_iff {ranges : Ranges} {code : Nat} :
    ranges.holds code = true ↔ ∃ range ∈ ranges, range.1 ≤ code ∧ code ≤ range.2 := by
  simp [Ranges.holds]

end DeadlockCapture.Text
