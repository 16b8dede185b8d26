import DeadlockCapture.Report.Assembly

/-!
What an assembly takes, and the account it gives of it: the rows of the first events, as many as
fit into a number of bytes, and at least one if there is any event.
-/

namespace DeadlockCapture.Report

open Time (Instant)

theorem time_buildRow (a : Assembler) (e : Event) : (a.buildRow e).time = e.time := by
  unfold Assembler.buildRow
  split <;> rfl

/-- The bytes of rows as one compact JSON list. -/
def listBytes (rows : List Row) : Nat :=
  (Json.list (rows.map Row.toJson)).compact.utf8ByteSize

theorem bytes_compactItems_concat (items : List Json) (item : Json) :
    (String.ofList (Json.compactItems (items ++ [item]))).utf8ByteSize =
      (String.ofList (Json.compactItems items)).utf8ByteSize + 1 + item.compact.utf8ByteSize := by
  have hcomma : ','.utf8Size = 1 := by decide
  induction items with
  | nil =>
      simp only [List.nil_append, Json.compactItems, Json.compact, List.cons_append,
        String.ofList_cons, String.ofList_append, String.utf8ByteSize_append,
        String.utf8ByteSize_singleton, hcomma]
      omega
  | cons first rest ih =>
      simp only [List.cons_append, Json.compactItems, String.ofList_cons, String.ofList_append,
        String.utf8ByteSize_append, String.utf8ByteSize_singleton, ih]
      omega

/-- One more row costs its own bytes, and a comma if rows stand before it. -/
theorem listBytes_concat (rows : List Row) (row : Row) :
    listBytes (rows ++ [row]) = listBytes rows + (if rows.isEmpty then 0 else 1) + row.size := by
  cases rows with
  | nil =>
      have hopen : '['.utf8Size = 1 := by decide
      simp only [listBytes, Row.size, Json.compact, Json.compactChars, Json.compactItems,
        List.nil_append, List.map_cons, List.map_nil, List.cons_append, String.ofList_cons,
        String.ofList_append, String.utf8ByteSize_append, String.utf8ByteSize_singleton,
        List.isEmpty_nil, if_true, hopen]
      omega
  | cons first rest =>
      simp only [listBytes, Row.size, Json.compact, Json.compactChars, List.cons_append,
        List.map_cons, List.map_append, List.map_nil, String.ofList_cons, String.ofList_append,
        String.utf8ByteSize_append, bytes_compactItems_concat, List.isEmpty_cons,
        Bool.false_eq_true, if_false]
      omega

/-- The account of an assembly that took some events and left others. -/
structure Assembly.Accounts (a : Assembler) (maxBytes : Nat) (taken left : List Event)
    (done : Assembly) : Prop where
  rows : done.rows = taken.map a.buildRow
  deferred : done.deferred = left.length
  bytes : done.bytes = listBytes done.rows
  parseErrors : done.parseErrors = done.rows.countP Row.isError
  bounded : done.bytes ≤ maxBytes ∨ taken.length ≤ 1
  /-- Nothing is left before something was taken. -/
  started : left ≠ [] → taken ≠ []
  /-- The first event that was left has no room. -/
  full : ∀ e ∈ left.head?, maxBytes < listBytes (done.rows ++ [a.buildRow e])

namespace Assembly.Accounts

variable {a : Assembler} {maxBytes : Nat} {taken left : List Event} {done : Assembly}

theorem of_empty : Accounts a maxBytes [] [] .empty where
  rows := rfl
  deferred := rfl
  bytes := by decide
  parseErrors := rfl
  bounded := .inr (Nat.zero_le 1)
  started h := absurd rfl h
  full _ h := by simp at h

theorem bytesWith (h : done.Accounts a maxBytes taken left) (row : Row) :
    done.bytesWith row = listBytes (done.rows ++ [row]) := by
  rw [Assembly.bytesWith, h.bytes, listBytes_concat]

/-- A row may be added if it fits or if it is the first. -/
theorem push (h : done.Accounts a maxBytes taken []) {e : Event}
    (hroom : done.bytesWith (a.buildRow e) ≤ maxBytes ∨ done.rows = []) (log : List LogEvent) :
    (done.push (a.buildRow e) log).Accounts a maxBytes (taken ++ [e]) [] where
  rows := by simp [Assembly.push, h.rows]
  deferred := h.deferred
  bytes := h.bytesWith _
  parseErrors := by
    simp only [Assembly.push, h.parseErrors, List.countP_append, List.countP_singleton]
  bounded := by
    refine hroom.imp id fun hrows => ?_
    have htaken : taken = [] := by simpa [h.rows] using hrows
    simp [htaken]
  started hleft := absurd rfl hleft
  full _ hnext := by simp at hnext

/-- The assembly may stop at an event that has no room once it has taken another. -/
theorem stop (h : done.Accounts a maxBytes taken []) {e : Event} (rest : List Event)
    (hroom : maxBytes < done.bytesWith (a.buildRow e)) (hrows : done.rows ≠ [])
    (log : List LogEvent) :
    { done with deferred := rest.length + 1, log := log }.Accounts a maxBytes taken
      (e :: rest) where
  rows := h.rows
  deferred := rfl
  bytes := h.bytes
  parseErrors := h.parseErrors
  bounded := h.bounded
  started _ htaken := hrows (by rw [h.rows, htaken, List.map_nil])
  full next hnext := by
    obtain rfl : e = next := by simpa using hnext
    rwa [h.bytesWith] at hroom

/-- The account of the events so far goes on to one of all events. -/
theorem extend (h : done.Accounts a maxBytes taken []) (events : List Event) :
    ∃ more left, events = more ++ left ∧
      (a.extend maxBytes done events).Accounts a maxBytes (taken ++ more) left := by
  induction events generalizing taken done with
  | nil => exact ⟨[], [], rfl, by simpa [Assembler.extend] using h⟩
  | cons e rest ih =>
      have hgoesOn (hroom : done.bytesWith (a.buildRow e) ≤ maxBytes ∨ done.rows = [])
          (log : List LogEvent) : ∃ more left, e :: rest = more ++ left ∧
            (a.extend maxBytes (done.push (a.buildRow e) log) rest).Accounts a maxBytes
              (taken ++ more) left := by
        obtain ⟨more, left, rfl, hmore⟩ := ih (h.push hroom log)
        exact ⟨e :: more, left, rfl, by simpa using hmore⟩
      simp only [Assembler.extend]
      by_cases hroom : maxBytes < done.bytesWith (a.buildRow e)
      · rw [if_pos hroom]
        by_cases hrows : done.rows = []
        · rw [if_pos (by simp [hrows])]
          exact hgoesOn (.inr hrows) _
        · rw [if_neg (by simpa using hrows)]
          exact ⟨[], e :: rest, rfl, by simpa using h.stop rest hroom hrows _⟩
      · rw [if_neg hroom]
        exact hgoesOn (.inl (Nat.le_of_not_lt hroom)) _

end Assembly.Accounts

theorem assemble_accounts (a : Assembler) (maxBytes : Nat) (events : List Event) :
    ∃ taken left, events = taken ++ left ∧
      (a.assemble maxBytes events).Accounts a maxBytes taken left := by
  have hstart : Assembly.empty.Accounts a maxBytes [] [] := .of_empty
  obtain ⟨taken, left, hsplit, h⟩ := hstart.extend events
  exact ⟨taken, left, hsplit, h.rows, h.deferred, h.bytes, h.parseErrors, h.bounded, h.started,
    h.full⟩

/-- The rows of an assembly are those of the first events. -/
theorem assemble_rows (a : Assembler) (maxBytes : Nat) (events : List Event) :
    ∃ front back, events = front ++ back ∧
      (a.assemble maxBytes events).rows = front.map a.buildRow ∧
      (events ≠ [] → front ≠ []) := by
  obtain ⟨taken, left, rfl, h⟩ := assemble_accounts a maxBytes events
  refine ⟨taken, left, rfl, h.rows, fun hne htaken => ?_⟩
  exact h.started (by simpa [htaken] using hne) htaken

/-- Every event is a row or deferred, the bytes are those of the rows as a JSON list, only a single
row may be too large, and the first deferred event had no room. -/
theorem assembly_accounts_for_events (a : Assembler) (maxBytes : Nat) (events : List Event) :
    let result := a.assemble maxBytes events
    ∃ taken left, events = taken ++ left ∧
      result.rows = taken.map a.buildRow ∧
      result.rows.length + result.deferred = events.length ∧
      result.bytes = listBytes result.rows ∧
      result.parseErrors = (result.rows.filter fun r => r.error.isSome).length ∧
      (events ≠ [] → result.rows ≠ []) ∧
      (result.bytes ≤ maxBytes ∨ result.rows.length = 1 ∨ events = []) ∧
      (0 < result.deferred → ∃ next rest, left = next :: rest ∧
        maxBytes < listBytes (result.rows ++ [a.buildRow next])) := by
  intro result
  obtain ⟨taken, left, hsplit, h⟩ := assemble_accounts a maxBytes events
  have htaken : events ≠ [] → taken ≠ [] := fun hne hnil =>
    h.started (by simpa [hnil, hsplit] using hne) hnil
  have hlength : result.rows.length = taken.length := by rw [h.rows, List.length_map]
  refine ⟨taken, left, hsplit, h.rows, ?_, h.bytes, ?_, ?_, ?_, ?_⟩
  · rw [hlength, h.deferred, hsplit, List.length_append]
  · rw [h.parseErrors, List.countP_eq_length_filter]
    rfl
  · intro hne hrows
    rw [hrows] at hlength
    exact htaken hne (List.length_eq_zero_iff.mp hlength.symm)
  · refine h.bounded.imp id fun hle => ?_
    by_cases hne : events = []
    · exact .inr hne
    · have hpos : 0 < taken.length := List.length_pos_iff.mpr (htaken hne)
      exact .inl (by omega)
  · intro hdeferred
    rw [h.deferred] at hdeferred
    obtain ⟨next, rest, hleft⟩ := List.exists_cons_of_length_pos hdeferred
    exact ⟨next, rest, hleft, h.full next (by rw [hleft]; rfl)⟩

end DeadlockCapture.Report
