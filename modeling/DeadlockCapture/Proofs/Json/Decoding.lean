import DeadlockCapture.Proofs.Json.Layout

/-!
Decoders that recover what was written. A record recovers its value when each member fills the field
of its name and each member left out leaves its field as a blank draft has it.
-/

namespace DeadlockCapture.Json

open DeadlockCapture.Text

namespace Decoder

variable {α : Type} {d : Decoder α} {write : α → Json}

/-- A decoder gives back each value from what a reader finds where it is written. -/
def Recovers (d : Decoder α) (write : α → Json) : Prop :=
  ∀ a, d (reading (write a)) = .ok a

theorem recovers_text : Decoder.text.Recovers .text := by
  intro s
  exact textOfUnits_unitsOf s

theorem recovers_bool : Decoder.bool.Recovers .bool := by
  intro b
  rfl

theorem whole_reading {least greatest k : Int} (hleast : int64Min ≤ least)
    (hgreatest : greatest ≤ uint64Max) (h : least ≤ k ∧ k ≤ greatest) :
    Decoder.whole least greatest (reading (.whole k)) = .ok k := by
  have hnumeral := integer?_numeralOf (Int.le_trans hleast h.1) (Int.le_trans h.2 hgreatest)
  simp only [reading, Decoder.whole, hnumeral, h, and_self, if_true]

theorem recovers_int32 : Decoder.int32.Recovers fun n => .whole n.toInt := by
  intro n
  have hbounds : int32Min ≤ n.toInt ∧ n.toInt ≤ int32Max := ⟨n.le_toInt, n.toInt_le⟩
  rw [Decoder.int32, whole_reading (by decide) (by decide) hbounds, Except.map, Int32.ofInt_toInt]

theorem recovers_uint32 : Decoder.uint32.Recovers fun n => .whole n.toNat := by
  intro n
  have hbounds : 0 ≤ (n.toNat : Int) ∧ (n.toNat : Int) ≤ uint32Max := by
    have := n.toNat_lt
    simp only [uint32Max]
    omega
  rw [Decoder.uint32, whole_reading (by decide) (by decide) hbounds, Except.map, Int.toNat_natCast,
    UInt32.ofNat_toNat]

theorem recovers_uint64 : Decoder.uint64.Recovers fun n => .whole n.toNat := by
  intro n
  have hbounds : 0 ≤ (n.toNat : Int) ∧ (n.toNat : Int) ≤ uint64Max := by
    have := n.toNat_lt
    simp only [uint64Max]
    omega
  rw [Decoder.uint64, whole_reading (by decide) (by decide) hbounds, Except.map, Int.toNat_natCast,
    UInt64.ofNat_toNat]

theorem decodeItems_map (h : d.Recovers write) (as : List α) :
    decodeItems d (as.map fun a => reading (write a)) = .ok as := by
  induction as with
  | nil => rfl
  | cons a as ih => simp only [List.map_cons, decodeItems, h a, ih, Except.map]

theorem Recovers.list (h : d.Recovers write) :
    (Decoder.list d).Recovers fun as => .list (as.map write) := by
  intro as
  simp only [reading, itemReadings_eq_map, List.map_map, Decoder.list, Function.comp_def,
    decodeItems_map h]

theorem decodeMembers_map (h : d.Recovers write) (entries : List (String × α)) :
    decodeMembers d (entries.map fun e => (unitsOf e.1, reading (write e.2))) = .ok entries := by
  induction entries with
  | nil => rfl
  | cons e entries ih =>
      simp only [List.map_cons, decodeMembers, textOfUnits_unitsOf, h e.2, ih, Except.map]

theorem Recovers.dictionary (h : d.Recovers write) :
    (Decoder.dictionary d).Recovers fun es => .record (es.map fun e => (e.1, write e.2)) := by
  intro entries
  simp only [reading, memberReadings_eq_map, List.map_map, Decoder.dictionary, Function.comp_def,
    decodeMembers_map h]

/-- A text is never written as null, so a decoder that admits null still finds it. -/
theorem nullable_text (s : String) :
    Decoder.nullable Decoder.text (reading (.text s)) = .ok (some s) := by
  have hread : Decoder.text (reading (.text s)) = .ok s := recovers_text s
  simp only [reading] at hread
  simp only [reading, Decoder.nullable, hread, Except.map]

/-- A decoder that recovers values also reads their texts. -/
theorem Recovers.decode_compact (h : d.Recovers write) (a : α) :
    decode d (write a).compact = .ok a := by
  rw [Json.decode_compact, h a]

theorem Recovers.decode_pretty (h : d.Recovers write) (a : α) :
    decode d (write a).pretty = .ok a := by
  rw [Json.decode_pretty, h a]

end Decoder

section Records

variable {α δ : Type} {fields : List (RecordField δ)} {field : RecordField δ} {name : String}

/-- Written members lead from one draft of a record to another: each finds the field of its name
not yet set, and fills it. -/
inductive Fills (fields : List (RecordField δ)) : δ → List (String × Json) → δ → Prop where
  | nil {a : δ} : Fills fields a [] a
  | cons {a b c : δ} {name : String} {value : Json} {members : List (String × Json)}
      {field : RecordField δ} (hfind : fields.find? (·.name == name) = some field)
      (hunset : field.isSet a = false) (hfill : field.fill a (reading value) = .ok b)
      (hrest : Fills fields b members c) : Fills fields a ((name, value) :: members) c

theorem Fills.append {a b c : δ} {first rest : List (String × Json)}
    (hfirst : Fills fields a first b) (hrest : Fills fields b rest c) :
    Fills fields a (first ++ rest) c := by
  induction hfirst with
  | nil => exact hrest
  | cons hfind hunset hfill _ ih => exact .cons hfind hunset hfill (ih hrest)

theorem Fills.fillMembers_eq {a b : δ} {members : List (String × Json)}
    (h : Fills fields a members b) : fillMembers fields a (memberReadings members) = .ok b := by
  induction h with
  | nil => rfl
  | cons hfind hunset hfill _ ih =>
      simp only [memberReadings, fillMembers, textOfUnits_unitsOf, hfind, hunset, hfill,
        Bool.false_eq_true, if_false, ih]

/-- A member that may be left out fills its field, or leaves the draft as it is. -/
theorem Fills.optional (put : Option α → δ) {write : α → Json} {o : Option α}
    (hfind : fields.find? (·.name == name) = some field) (hunset : field.isSet (put none) = false)
    (hfill : ∀ a ∈ o, field.fill (put none) (reading (write a)) = .ok (put (some a))) :
    Fills fields (put none) (Json.optional name (o.map write)) (put o) := by
  cases o with
  | none => exact .nil
  | some a => exact .cons hfind hunset (hfill a rfl) .nil

/-- A field takes the value that its decoder finds. -/
theorem fill_slot {isOptional : Bool} {get : δ → Option α} {set : δ → α → δ} {d : Decoder α}
    {r : Reading} {a : δ} {v : α} (h : d r = .ok v) :
    (RecordField.slot name isOptional get set d).fill a r = .ok (set a v) := by
  simp only [RecordField.slot, h, Except.map]

/-- A record recovers a value if its members lead to a draft that is finished as the value. -/
theorem Fills.record_eq {blank draft : δ} {members : List (String × Json)} {finish : δ → Option α}
    {a : α} (h : Fills fields blank members draft) (hfinish : finish draft = some a) :
    Decoder.record fields blank finish (reading (.record members)) = .ok a := by
  simp only [Decoder.record, reading, h.fillMembers_eq, hfinish]

end Records

section Omitted

/-- What is written of a value that is left out when it is blank. -/
def unlessBlank {α : Type} (isBlank : α → Bool) (a : α) : Option α :=
  if isBlank a then none else some a

theorem getD_unlessBlank {α : Type} {isBlank : α → Bool} {a blank : α}
    (h : isBlank a = true → a = blank) : (unlessBlank isBlank a).getD blank = a := by
  cases hblank : isBlank a with
  | true => rw [unlessBlank, if_pos hblank, h hblank, Option.getD_none]
  | false => rw [unlessBlank, if_neg (by simp [hblank]), Option.getD_some]

@[simp] theorem getD_unlessBlank_text (s : String) :
    (unlessBlank String.isEmpty s).getD "" = s :=
  getD_unlessBlank fun h => String.isEmpty_iff.1 h

@[simp] theorem getD_unlessBlank_list {α : Type} (as : List α) :
    (unlessBlank List.isEmpty as).getD [] = as :=
  getD_unlessBlank fun h => List.isEmpty_iff.1 h

@[simp] theorem getD_unlessBlank_flag (b : Bool) : (unlessBlank Bool.not b).getD false = b :=
  getD_unlessBlank fun h => by simpa using h

theorem unlessEmpty_eq (name s : String) :
    unlessEmpty name s = Json.optional name ((unlessBlank String.isEmpty s).map .text) := by
  cases h : s.isEmpty <;> simp [unlessEmpty, unlessBlank, Json.optional, h]

theorem unlessNil_eq {α : Type} (name : String) (write : α → Json) (as : List α) :
    unlessNil name (as.map write) =
      Json.optional name ((unlessBlank List.isEmpty as).map fun as => .list (as.map write)) := by
  cases as <;> rfl

theorem whenSet_eq (name : String) (b : Bool) :
    whenSet name b = Json.optional name ((unlessBlank Bool.not b).map .bool) := by
  cases b <;> rfl

variable {α δ : Type} {fields : List (RecordField δ)} {name : String} {isOptional : Bool}

theorem Fills.text {get : δ → Option String} {set : δ → String → δ} (put : Option String → δ)
    {s : String}
    (hfind : fields.find? (·.name == name) = some (.slot name isOptional get set Decoder.text))
    (hunset : (get (put none)).isSome = false) (hset : ∀ s, set (put none) s = put (some s)) :
    Fills fields (put none) (unlessEmpty name s) (put (unlessBlank String.isEmpty s)) := by
  rw [unlessEmpty_eq]
  refine .optional put hfind hunset fun s _ => ?_
  rw [fill_slot (Decoder.recovers_text s), hset]

theorem Fills.list {get : δ → Option (List α)} {set : δ → List α → δ} {d : Decoder α}
    {write : α → Json} (put : Option (List α) → δ) {as : List α} (h : d.Recovers write)
    (hfind : fields.find? (·.name == name) = some (.slot name isOptional get set (Decoder.list d)))
    (hunset : (get (put none)).isSome = false) (hset : ∀ as, set (put none) as = put (some as)) :
    Fills fields (put none) (unlessNil name (as.map write))
      (put (unlessBlank List.isEmpty as)) := by
  rw [unlessNil_eq]
  refine .optional put hfind hunset fun as _ => ?_
  rw [fill_slot (h.list as), hset]

end Omitted

end DeadlockCapture.Json
