import DeadlockCapture.Proofs.Xml.References
import Mathlib.Data.List.Chain

/-!
Which texts are read as they are once they have been escaped. Escaping writes the three characters
of markup as references and leaves carriage returns to the reader, who takes them for ends of lines
unless a reference follows.
-/

namespace DeadlockCapture.Xml

/-- Every carriage return stands at the end, or in front of a character that is escaped. -/
def ReturnsBeforeMarks (u : List Char) : Prop :=
  u.IsChain fun c d => c = '\r' → d = '&' ∨ d = '<' ∨ d = '>'

theorem returnsBeforeMarks_cons_iff {c : Char} (hother : c ≠ '\r') (u : List Char) :
    ReturnsBeforeMarks (c :: u) ↔ ReturnsBeforeMarks u := by
  rw [ReturnsBeforeMarks, List.isChain_cons]
  exact and_iff_right fun d _ hcarriage => absurd hcarriage hother

theorem returnsBeforeMarks_return_iff (c : Char) (u : List Char) :
    ReturnsBeforeMarks ('\r' :: c :: u) ↔
      (c = '&' ∨ c = '<' ∨ c = '>') ∧ ReturnsBeforeMarks (c :: u) := by
  rw [ReturnsBeforeMarks, List.isChain_cons_cons, imp_iff_right rfl]
  rfl

/-- How an escaped text is read, after a reference or not, and after a carriage return that waits
for what follows it. -/
theorem lineEnds_eq_iff {u : List Char} (hlast : u.getLast? ≠ some '\r') :
    (∀ kept, lineEnds kept false (u.map glyphOf) = u ↔ ReturnsBeforeMarks u) ∧
      (u ≠ [] → (lineEnds false true (u.map glyphOf) = '\r' :: u ↔
        ReturnsBeforeMarks ('\r' :: u))) := by
  -- A carriage return leads from the first state to the second, so both go through the induction.
  induction u with
  | nil =>
      refine ⟨fun kept => iff_of_true ?_ .nil, fun hsome => absurd rfl hsome⟩
      rw [List.map_nil, lineEnds]
      rfl
  | cons c u ih =>
      have hlast' : u.getLast? ≠ some '\r' := by
        cases u with
        | nil => simp
        | cons d u => rwa [List.getLast?_cons_cons] at hlast
      obtain ⟨hplain, hwaiting⟩ := ih hlast'
      rw [List.map_cons, glyphOf, returnsBeforeMarks_return_iff]
      by_cases hmark : c = '&' ∨ c = '<' ∨ c = '>'
      · have hother : c ≠ '\r' := by
          rintro rfl
          simp at hmark
        rw [if_pos hmark, returnsBeforeMarks_cons_iff hother, ← hplain true, and_iff_right hmark]
        simp [lineEnds]
      · rw [if_neg hmark]
        by_cases hcarriage : c = '\r'
        · -- It is not the last character, so it waits for the next one.
          subst hcarriage
          have hsome : u ≠ [] := by
            rintro rfl
            exact hlast rfl
          rw [← hwaiting hsome]
          refine ⟨fun kept => ?_, fun _ => iff_of_false ?_ fun h => hmark h.1⟩
          · cases kept <;> simp [lineEnds, hsome]
          · simp [lineEnds, hsome]
        · rw [returnsBeforeMarks_cons_iff hcarriage, ← hplain false]
          refine ⟨fun kept => ?_, fun _ => iff_of_false ?_ fun h => hmark h.1⟩
          · cases kept <;> simp [lineEnds, hcarriage]
          · simp only [lineEnds, hcarriage, Bool.false_eq_true, if_false, if_true]
            split <;> simp

/-- A text that ends in no carriage return is read back as it was just when each of its carriage
returns stands in front of an escaped character. -/
theorem readBack_eq_self_iff {u : List Char} (hlast : u.getLast? ≠ some '\r') :
    readBack u = u ↔ ReturnsBeforeMarks u :=
  (lineEnds_eq_iff hlast).1 false

theorem readBack_eq_nil_iff {u : List Char} : readBack u = [] ↔ u = [] := by
  constructor
  · intro hnone
    by_contra hsome
    exact lineEnds_ne_nil (.inr fun h => hsome (List.map_eq_nil_iff.mp h)) hnone
  · rintro rfl
    rw [readBack, List.map_nil, lineEnds]
    rfl

end DeadlockCapture.Xml
