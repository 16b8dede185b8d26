/-!
Texts that differ in the ends of their lines.
-/

namespace DeadlockCapture.Text

/-- The second text is the first with some carriage returns left out or made line feeds. -/
inductive Reended : List Char → List Char → Prop
  | nil : Reended [] []
  | keep (c : Char) {s t : List Char} : Reended s t → Reended (c :: s) (c :: t)
  | feed {s t : List Char} : Reended s t → Reended ('\r' :: s) ('\n' :: t)
  | drop {s t : List Char} : Reended s t → Reended ('\r' :: s) t

theorem Reended.of_cons {c : Char} {s u : List Char} (h : Reended (c :: s) u) (hother : c ≠ '\r') :
    ∃ t, u = c :: t ∧ Reended s t := by
  cases h with
  | keep _ hrest => exact ⟨_, rfl, hrest⟩
  | feed => exact absurd rfl hother
  | drop => exact absurd rfl hother

theorem Reended.of_append {r s u : List Char} (h : Reended (r ++ s) u) :
    ∃ t v, u = t ++ v ∧ Reended r t ∧ Reended s v := by
  induction r generalizing u with
  | nil => exact ⟨[], u, rfl, .nil, h⟩
  | cons c r ih =>
      cases h with
      | keep _ hrest =>
          obtain ⟨t, v, rfl, hfirst, hlater⟩ := ih hrest
          exact ⟨c :: t, v, rfl, .keep c hfirst, hlater⟩
      | feed hrest =>
          obtain ⟨t, v, rfl, hfirst, hlater⟩ := ih hrest
          exact ⟨'\n' :: t, v, rfl, .feed hfirst, hlater⟩
      | drop hrest =>
          obtain ⟨t, v, rfl, hfirst, hlater⟩ := ih hrest
          exact ⟨t, v, rfl, .drop hfirst, hlater⟩

theorem Reended.eq_of_not_mem {s t : List Char} (h : Reended s t) (hnone : '\r' ∉ s) : t = s := by
  induction h with
  | nil => rfl
  | keep c hrest ih => rw [ih fun hmember => hnone (List.mem_cons_of_mem c hmember)]
  | feed => exact absurd List.mem_cons_self hnone
  | drop => exact absurd List.mem_cons_self hnone

end DeadlockCapture.Text
