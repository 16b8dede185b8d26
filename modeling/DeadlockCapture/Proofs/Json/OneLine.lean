import DeadlockCapture.Proofs.Json.Layout

/-!
A compact text is one line. Line ends and other control characters inside texts and names are
escaped, and nothing else that is written has any.
-/

namespace DeadlockCapture.Json

open DeadlockCapture.Text

/-- A text without control characters. -/
def Printable (s : List Char) : Prop :=
  ∀ c ∈ s, 0x20 ≤ c.toNat

instance (s : List Char) : Decidable (Printable s) :=
  List.decidableBAll (fun c : Char => 0x20 ≤ c.toNat) s

namespace Printable

variable {s t : List Char} {c : Char}

theorem append (hs : Printable s) (ht : Printable t) : Printable (s ++ t) := by
  intro c hc
  exact (List.mem_append.1 hc).elim (hs c) (ht c)

theorem cons (hc : 0x20 ≤ c.toNat) (hs : Printable s) : Printable (c :: s) :=
  List.forall_mem_cons.2 ⟨hc, hs⟩

theorem of_digits (h : ∀ c ∈ s, c.isDigit = true) : Printable s := by
  intro c hc
  have hrange := Char.isDigit_iff_toNat.1 (h c hc)
  exact Nat.le_trans (by decide) hrange.1

end Printable

theorem printable_escape (c : Char) : Printable (escape c) := by
  rw [escape]
  -- Each branch is a closed text but the last two: the digits of a control character, and the
  -- character itself when it is none.
  repeat' split
  all_goals try decide
  · have hdigits : ∀ n < 0x20, Printable
        ['\\', 'u', '0', '0', Nat.digitChar (n / 16), Nat.digitChar (n % 16)] := by
      decide
    exact hdigits _ ‹_›
  · exact List.forall_mem_singleton.2 (Nat.le_of_not_lt ‹_›)

theorem printable_quote (s : String) : Printable (quote s) := by
  have hinner : Printable (s.toList.flatMap escape) := by
    intro c hc
    obtain ⟨d, -, hd⟩ := List.mem_flatMap.1 hc
    exact printable_escape d c hd
  exact (Printable.cons (by decide) hinner).append (by decide)

theorem Numeral.Proper.printable {n : Numeral} (hn : n.Proper) : Printable n.chars := by
  have hsign : Printable (if n.negative then ['-'] else []) := by
    cases n.negative <;> decide
  have hfraction : Printable (if n.fraction.isEmpty then [] else '.' :: n.fraction) := by
    split
    · exact nofun
    · exact .cons (by decide) (.of_digits hn.fraction)
  have hexponent : Printable (exponentChars n.exponent) := by
    cases he : n.exponent with
    | none => exact nofun
    | some e =>
        have hdigits := Printable.of_digits (hn.exponent e he).2
        obtain ⟨negative, digits⟩ := e
        cases negative <;> exact .cons (by decide) (.cons (by decide) hdigits)
  exact ((hsign.append (.of_digits hn.whole)).append hfraction).append hexponent

theorem printable_scientificText (x : Float) : Printable (Decimal.scientificText x) := by
  rcases scientificText_cases x with hnull | ⟨n, hn, hchars⟩
  · rw [hnull]
    decide
  · rw [hchars]
    exact hn.printable

mutual

/-- Whatever characters its texts and names have, the compact text of a value has no control
character. -/
theorem printable_compactChars : ∀ j : Json, Printable (compactChars j)
  | .null | .bool true | .bool false | .list [] | .record [] => by
    simp only [compactChars]
    decide
  | .whole k => by
    rw [compactChars, wholeText_eq]
    exact (proper_numeralOf k).printable
  | .real x => printable_scientificText x
  | .text s => printable_quote s
  | .list (item :: rest) => by
    rw [compactChars]
    exact (Printable.cons (by decide) (printable_compactChars item)).append
      (printable_compactItems rest)
  | .record ((name, value) :: rest) => by
    rw [compactChars]
    exact ((Printable.cons (by decide) (printable_quote name)).append
      (.cons (by decide) (printable_compactChars value))).append (printable_compactMembers rest)

theorem printable_compactItems : ∀ items : List Json, Printable (compactItems items)
  | [] => by
    rw [compactItems]
    decide
  | item :: rest => by
    rw [compactItems]
    exact (Printable.cons (by decide) (printable_compactChars item)).append
      (printable_compactItems rest)

theorem printable_compactMembers :
    ∀ members : List (String × Json), Printable (compactMembers members)
  | [] => by
    rw [compactMembers]
    decide
  | (name, value) :: rest => by
    rw [compactMembers]
    exact ((Printable.cons (by decide) (printable_quote name)).append
      (.cons (by decide) (printable_compactChars value))).append (printable_compactMembers rest)

end

end DeadlockCapture.Json
