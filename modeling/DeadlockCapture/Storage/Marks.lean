import DeadlockCapture.Json.Printer
import DeadlockCapture.Report.Event
import DeadlockCapture.Text.Blank

/-!
The marks of several instances as one table, ordered by the instances' names, and its text.
-/

namespace DeadlockCapture.Storage

open Time (Instant)

structure Marks where
  entries : List (String × Instant)
  ascending : entries.Pairwise (·.1 < ·.1)

namespace Marks

def empty : Marks :=
  ⟨[], .nil⟩

def get? (m : Marks) (name : String) : Option Instant :=
  (m.entries.find? (·.1 == name)).map (·.2)

/-- Puts an entry at its place in an ascending list, over one of the same name. -/
def place (name : String) (value : Instant) : List (String × Instant) → List (String × Instant)
  | [] => [(name, value)]
  | e :: r =>
    if name < e.1 then (name, value) :: e :: r
    else if e.1 < name then e :: place name value r
    else (name, value) :: r

theorem mem_place {name : String} {value : Instant} {e : String × Instant}
    {entries : List (String × Instant)} (h : e ∈ place name value entries) :
    e = (name, value) ∨ e ∈ entries := by
  induction entries with
  | nil => simpa [place] using h
  | cons f r ih =>
    simp only [place] at h
    split at h
    · simpa using h
    · split at h
      · rcases List.mem_cons.1 h with rfl | h
        · simp
        · rcases ih h with rfl | h
          · simp
          · simp [h]
      · rcases List.mem_cons.1 h with rfl | h
        · simp
        · simp [h]

theorem ascending_place {name : String} {value : Instant} {entries : List (String × Instant)}
    (h : entries.Pairwise (·.1 < ·.1)) : (place name value entries).Pairwise (·.1 < ·.1) := by
  induction entries with
  | nil => simp [place]
  | cons e r ih =>
    rw [List.pairwise_cons] at h
    simp only [place]
    split
    · rename_i hne
      refine List.pairwise_cons.2 ⟨?_, List.pairwise_cons.2 h⟩
      intro f hf
      rcases List.mem_cons.1 hf with rfl | hf
      · exact hne
      · exact String.lt_trans hne (h.1 f hf)
    · split
      · rename_i hen
        refine List.pairwise_cons.2 ⟨?_, ih h.2⟩
        intro f hf
        rcases mem_place hf with rfl | hf
        · exact hen
        · exact h.1 f hf
      · rename_i hne hen
        have heq : name = e.1 := String.le_antisymm (String.not_lt.1 hen) (String.not_lt.1 hne)
        refine List.pairwise_cons.2 ⟨?_, h.2⟩
        intro f hf
        exact heq ▸ h.1 f hf

def insert (m : Marks) (name : String) (value : Instant) : Marks :=
  ⟨place name value m.entries, ascending_place m.ascending⟩

theorem find?_place (name other : String) (value : Instant) (entries : List (String × Instant)) :
    ((place name value entries).find? (·.1 == other)).map (·.2) =
      if other = name then some value else (entries.find? (·.1 == other)).map (·.2) := by
  induction entries with
  | nil => by_cases h : name = other <;> simp [place, h, Ne.symm]
  | cons e r ih =>
    simp only [place]
    split
    · by_cases h : name = other
      · simp [h]
      · simp [h, Ne.symm h]
    · split
      · rename_i hlt
        by_cases he : e.1 = other
        · have hne : other ≠ name := fun h => String.lt_irrefl _ (he.trans h ▸ hlt)
          simp [he, hne]
        · simp [he, ih]
      · rename_i hnot hnot'
        have heq : name = e.1 := String.le_antisymm (String.not_lt.1 hnot') (String.not_lt.1 hnot)
        by_cases h : name = other
        · simp [h]
        · have he : e.1 ≠ other := heq ▸ h
          simp [h, he, Ne.symm h]

/-- The table holds what was put last for an instance, and the marks of the others as before. -/
theorem get?_insert (m : Marks) (name other : String) (value : Instant) :
    (m.insert name value).get? other = if other = name then some value else m.get? other :=
  find?_place name other value m.entries

/-- The table of some entries; of several for one instance the last counts. -/
def ofList (entries : List (String × Instant)) : Marks :=
  entries.foldl (fun m e => m.insert e.1 e.2) empty

def toJson (m : Marks) : Json :=
  .record (m.entries.map fun e => (e.1, e.2.toJson))

def decoder : Json.Decoder Marks := fun r =>
  (Json.Decoder.dictionary Instant.decoder r).map ofList

def text (m : Marks) : String :=
  m.toJson.pretty

/-- Reads a table; a text without anything but blanks is the empty table. -/
def ofText (text : String) : Except Json.Fault Marks :=
  if Text.allBlank text then .ok empty else Json.decode decoder text

end Marks

end DeadlockCapture.Storage
