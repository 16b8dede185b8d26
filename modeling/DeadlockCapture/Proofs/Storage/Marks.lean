import DeadlockCapture.Proofs.Report.RoundTrip
import DeadlockCapture.Storage.Marks

/-!
The text of a table of marks is read back as the table, whatever the names and times in it.
-/

namespace DeadlockCapture.Storage

open Time (Instant)

namespace Marks

theorem place_last {name : String} {value : Instant} {entries : List (String × Instant)}
    (h : ∀ e ∈ entries, e.1 < name) : place name value entries = entries ++ [(name, value)] := by
  induction entries with
  | nil => rfl
  | cons e r ih =>
      have hlt : e.1 < name := h e List.mem_cons_self
      rw [place, if_neg (String.lt_asymm hlt), if_pos hlt,
        ih fun f hf => h f (List.mem_cons_of_mem e hf), List.cons_append]

theorem entries_foldl_insert {m : Marks} {rest : List (String × Instant)}
    (h : (m.entries ++ rest).Pairwise (·.1 < ·.1)) :
    (rest.foldl (fun m e => m.insert e.1 e.2) m).entries = m.entries ++ rest := by
  induction rest generalizing m with
  | nil => rw [List.foldl_nil, List.append_nil]
  | cons e rest ih =>
      have hlast : (m.insert e.1 e.2).entries = m.entries ++ [e] :=
        place_last fun f hf => (List.pairwise_append.1 h).2.2 f hf e List.mem_cons_self
      have hordered : ((m.insert e.1 e.2).entries ++ rest).Pairwise (·.1 < ·.1) := by
        rwa [hlast, List.append_assoc, List.singleton_append]
      rw [List.foldl_cons, ih hordered, hlast, List.append_assoc, List.singleton_append]

/-- A table is the table of its entries. -/
theorem ofList_entries (m : Marks) : ofList m.entries = m := by
  have hentries : (ofList m.entries).entries = m.entries :=
    entries_foldl_insert (m := empty) m.ascending
  obtain ⟨entries, hascending⟩ := m
  rw [mk.injEq, hentries]

theorem recovers : Marks.decoder.Recovers Marks.toJson := by
  intro m
  rw [decoder, toJson, Time.Instant.recovers.dictionary m.entries, Except.map, ofList_entries]

theorem allBlank_text (m : Marks) : Text.allBlank m.text = false := by
  obtain ⟨entries, hascending⟩ := m
  rw [text, Json.pretty, Text.allBlank, String.toList_ofList, toJson]
  cases entries with
  | nil => rfl
  | cons e entries => rfl

/-- The text of a table is read as the table. -/
theorem ofText_text (m : Marks) : ofText m.text = .ok m := by
  rw [ofText, allBlank_text, if_neg Bool.false_ne_true, text, recovers.decode_pretty]

theorem ofText_of_allBlank {text : String} (h : Text.allBlank text = true) :
    ofText text = .ok empty := by
  rw [ofText, if_pos h]

end Marks

end DeadlockCapture.Storage
