import DeadlockCapture.Json.Basic
import DeadlockCapture.Json.Decoder

/-!
Finite sets of session ids. A set is its members in ascending order, so equal sets are equal.
-/

namespace DeadlockCapture.Report

/-- The id by which the server knows a session. -/
abbrev SessionId := Int32

structure SessionSet where
  ids : List SessionId
  ascending : ids.Pairwise (· < ·)
deriving DecidableEq

namespace SessionSet

def place (x : SessionId) : List SessionId → List SessionId
  | [] => [x]
  | y :: r => if x < y then x :: y :: r else if y < x then y :: place x r else y :: r

theorem mem_place {x z : SessionId} {ids : List SessionId} :
    z ∈ place x ids ↔ z = x ∨ z ∈ ids := by
  induction ids with
  | nil => simp [place]
  | cons y r ih =>
    simp only [place]
    split
    · simp
    · split
      · simp only [List.mem_cons, ih]
        grind
      · have : x = y := by grind [Int32.lt_iff_toInt_lt, Int32.toInt_inj]
        simp [this]

theorem ascending_place {x : SessionId} {ids : List SessionId} (h : ids.Pairwise (· < ·)) :
    (place x ids).Pairwise (· < ·) := by
  induction ids with
  | nil => simp [place]
  | cons y r ih =>
    rw [List.pairwise_cons] at h
    simp only [place]
    split
    · rename_i hxy
      rw [List.pairwise_cons]
      refine ⟨?_, List.pairwise_cons.2 h⟩
      intro z hz
      rcases List.mem_cons.1 hz with rfl | hz
      · exact hxy
      · have := h.1 z hz
        grind [Int32.lt_iff_toInt_lt]
    · split
      · rename_i hyx
        rw [List.pairwise_cons]
        refine ⟨?_, ih h.2⟩
        intro z hz
        rcases mem_place.1 hz with rfl | hz
        · exact hyx
        · exact h.1 z hz
      · exact List.pairwise_cons.2 h

def empty : SessionSet :=
  ⟨[], .nil⟩

def insert (s : SessionSet) (x : SessionId) : SessionSet :=
  ⟨place x s.ids, ascending_place s.ascending⟩

def ofList (ids : List SessionId) : SessionSet :=
  ids.foldl insert empty

def contains (s : SessionSet) (x : SessionId) : Bool :=
  s.ids.contains x

instance : Membership SessionId SessionSet := ⟨fun s x => x ∈ s.ids⟩

theorem mem_insert {s : SessionSet} {x z : SessionId} : z ∈ s.insert x ↔ z = x ∨ z ∈ s :=
  mem_place

def isEmpty (s : SessionSet) : Bool :=
  s.ids.isEmpty

def toJson (s : SessionSet) : Json :=
  .list (s.ids.map fun id => .whole id.toInt)

/-- Reads a list of ids in any order, with repetitions. -/
def decoder : Json.Decoder SessionSet := fun r =>
  (Json.Decoder.list Json.Decoder.int32 r).map ofList

end SessionSet

end DeadlockCapture.Report
