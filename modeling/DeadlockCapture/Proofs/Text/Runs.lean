import DeadlockCapture.Text.Digits

/-!
Runs of characters of one class, texts that begin alike, and answers that are no fault.
-/

namespace DeadlockCapture.Text

/-- What holds of every character in a list is decided from the list, not from all characters. -/
theorem forall_mem_of_all {p : Char → Prop} [DecidablePred p] {l : List Char}
    (h : l.all (fun c => decide (p c)) = true) : ∀ c ∈ l, p c := by
  simpa using h

/-- A run of `p` ends at the end of `w`: the text after `w` does not go on with it. -/
theorem run_eq_length_iff {p : Char → Bool} {w r : List Char} :
    ((w ++ r).takeWhile p).length = w.length ↔
      (∀ c ∈ w, p c = true) ∧ ∀ c ∈ r.head?, p c = false := by
  induction w with
  | nil =>
      cases r with
      | nil => simp
      | cons c r => by_cases hc : p c <;> simp [hc]
  | cons d w ih => by_cases hd : p d <;> simp [hd, ih]

theorem takeWhile_eq_iff {p : Char → Bool} {w r : List Char} :
    (w ++ r).takeWhile p = w ↔ (∀ c ∈ w, p c = true) ∧ ∀ c ∈ r.head?, p c = false := by
  rw [← run_eq_length_iff]
  constructor
  · exact congrArg List.length
  · intro hlength
    have hwhole : (w ++ r).takeWhile p <+: w ++ r := List.takeWhile_prefix p
    have hfront : w <+: w ++ r := List.prefix_append w r
    exact (List.prefix_of_prefix_length_le hwhole hfront (by omega)).eq_of_length hlength

theorem run_le (p : Char → Bool) (s : List Char) : (s.takeWhile p).length ≤ s.length :=
  (List.takeWhile_prefix p).length_le

/-- The run in front of a text and what is left of the text. -/
theorem run_split (p : Char → Bool) (s : List Char) :
    s.takeWhile p ++ s.drop (s.takeWhile p).length = s := by
  have hwhole : s.takeWhile p ++ s.dropWhile p = s := List.takeWhile_append_dropWhile
  have hrest : (s.takeWhile p ++ s.dropWhile p).drop (s.takeWhile p).length = s.dropWhile p :=
    List.drop_left
  rw [hwhole] at hrest
  rw [hrest, hwhole]

theorem run_stops (p : Char → Bool) (s : List Char) :
    ∀ c ∈ (s.drop (s.takeWhile p).length).head?, p c = false := by
  have hsplit := run_split p s
  exact (takeWhile_eq_iff.mp (congrArg (List.takeWhile p) hsplit)).2

/-- A run in a text ends there in front of a text that does not go on with it. -/
theorem takeWhile_append_of_stops {p : Char → Bool} {u s : List Char}
    (hstops : ∀ c ∈ s.head?, p c = false) : (u ++ s).takeWhile p = u.takeWhile p := by
  induction u with
  | nil =>
      cases s with
      | nil => rfl
      | cons c s => simp [hstops c rfl]
  | cons c u ih => simp only [List.cons_append, List.takeWhile_cons, ih]

/-- A run does not go past a text after which nothing goes on with it. -/
theorem run_le_of_stops {p : Char → Bool} {u s : List Char} (hstops : ∀ c ∈ s.head?, p c = false) :
    ((u ++ s).takeWhile p).length ≤ u.length := by
  rw [takeWhile_append_of_stops hstops]
  exact run_le p u

/-- What a text starts with is known after as many characters. -/
theorem isPrefixOf_append {p u : List Char} (h : p.length ≤ u.length) (r : List Char) :
    p.isPrefixOf (u ++ r) = p.isPrefixOf u := by
  rw [Bool.eq_iff_iff, List.isPrefixOf_iff_prefix, List.isPrefixOf_iff_prefix]
  constructor
  · exact fun hstart => List.prefix_of_prefix_length_le hstart (List.prefix_append u r) h
  · exact fun hstart => hstart.trans (List.prefix_append u r)

/-- What a text starts with is known after characters that do not belong to it. -/
theorem isPrefixOf_append_of_not {p u : List Char} (h : ¬ u <+: p) (r r' : List Char) :
    p.isPrefixOf (u ++ r) = p.isPrefixOf (u ++ r') := by
  have honly : ∀ r, p.isPrefixOf (u ++ r) = true ↔ p <+: u := by
    intro r
    rw [List.isPrefixOf_iff_prefix]
    constructor
    · intro hstart
      exact (List.prefix_or_prefix_of_prefix hstart (List.prefix_append u r)).resolve_right h
    · exact fun hstart => hstart.trans (List.prefix_append u r)
  rw [Bool.eq_iff_iff, honly, honly]

theorem map_eq_ok_iff {ε α β : Type} {f : α → β} {x : Except ε α} {b : β} :
    x.map f = .ok b ↔ ∃ a, x = .ok a ∧ f a = b := by
  cases x <;> simp [Except.map]

theorem guard_eq_ok_iff {ε α : Type} {c : Prop} [Decidable c] {x : Except ε α} {f : ε} {a : α} :
    (if c then .error f else x) = .ok a ↔ ¬ c ∧ x = .ok a := by
  by_cases h : c <;> simp [h]

theorem bind_eq_ok_iff {ε α β : Type} {x : Except ε α} {f : α → Except ε β} {b : β} :
    (x >>= f) = .ok b ↔ ∃ a, x = .ok a ∧ f a = .ok b := by
  cases x <;> simp [bind, Except.bind]

theorem exists_ok_of_any {ε α : Type} {x : Except ε α} {p : α → Bool}
    (h : x.toOption.any p = true) : ∃ a, x = .ok a ∧ p a = true := by
  cases x with
  | error e => cases h
  | ok a => exact ⟨a, rfl, h⟩

/-- Answers that are the same for `f` are one fault, or no faults. -/
theorem cases_of_map_eq {ε α β : Type} {f : α → β} {x y : Except ε α} (h : x.map f = y.map f) :
    (∃ e, x = .error e ∧ y = .error e) ∨ ∃ a b, x = .ok a ∧ y = .ok b ∧ f a = f b := by
  cases x <;> cases y <;> simp_all [Except.map]

end DeadlockCapture.Text
