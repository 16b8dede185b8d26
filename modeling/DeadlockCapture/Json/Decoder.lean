import DeadlockCapture.Bounds
import DeadlockCapture.Decimal.Basic
import DeadlockCapture.Json.Reading

/-!
Decoders of readings. A decoder reports the first problem in reading order, be it a break of the
text or a value of the wrong shape. Members that nobody asks for are only skipped, and skipping is
content with texts that name half of a pair of units and with numbers of any size.
-/

namespace DeadlockCapture.Json

open DeadlockCapture.Text

abbrev Decoder (α : Type) := Reading → Except Fault α

/-- Why units do not make a text. -/
inductive Unpaired where
  | alone
  /-- The first half of a pair stands at the end. -/
  | atEnd
deriving DecidableEq, Repr

def isHighUnit (n : Nat) : Bool :=
  0xD800 ≤ n && n ≤ 0xDBFF

def isLowUnit (n : Nat) : Bool :=
  0xDC00 ≤ n && n ≤ 0xDFFF

/-- The character of a pair of units. -/
def pairedChar (high low : Nat) : Char :=
  Char.ofNat (0x10000 + (high - 0xD800) * 0x400 + (low - 0xDC00))

/-- The characters that units stand for; `high` is a first half that waits for its second. -/
def charsAfter (high : Option Nat) : List TextUnit → Except Unpaired (List Char)
  | [] => if high.isSome then .error .atEnd else .ok []
  | .plain c :: r =>
    if high.isSome then .error .alone else (charsAfter none r).map (c :: ·)
  | .unit n :: r =>
    match high with
    | some h => if isLowUnit n then (charsAfter none r).map (pairedChar h n :: ·) else .error .alone
    | none =>
      if isLowUnit n then .error .alone
      else if isHighUnit n then charsAfter (some n) r
      else (charsAfter none r).map (Char.ofNat n :: ·)

/-- The text that units stand for. -/
def textOfUnits (units : List TextUnit) : Except Fault String :=
  match charsAfter none units with
  | .ok cs => .ok (String.ofList cs)
  | .error _ => .error .malformed

/-- The fault at a break, for a reader that wants the value there. -/
def Break.fault : Break → Fault
  | .here f => f
  | .inText units f =>
    match charsAfter none units with
    | .error .alone => .malformed
    | _ => f
  | .inNumber => .truncated

/-- The fault at a break, for a reader that skips the value there. -/
def Break.skipFault : Break → Fault
  | .here f => f
  | .inText _ f => f
  | .inNumber => .malformed

mutual

def Reading.skipFault? : Reading → Option Fault
  | .null | .bool _ | .number _ | .text _ => none
  | .broken stop => some stop.skipFault
  | .list items stop => (skipItems items).or (stop.map Break.skipFault)
  | .record members stop => (skipMembers members).or (stop.map Break.skipFault)

def skipItems : List Reading → Option Fault
  | [] => none
  | item :: rest => item.skipFault?.or (skipItems rest)

def skipMembers : List (List TextUnit × Reading) → Option Fault
  | [] => none
  | (_, value) :: rest => value.skipFault?.or (skipMembers rest)

end

/-- Appends digits to a number while it fits into 64 bits; also how many it took. -/
def appendDigits (n taken : Nat) : List Char → Nat × Nat
  | [] => (n, taken)
  | c :: r =>
    let next := n * 10 + (c.toNat - 0x30)
    if uint64Max < next then (n, taken) else appendDigits next (taken + 1) r

/-- The value of a numeral without fraction and exponent, if it is a number of 64 bits. -/
def Numeral.integer? (n : Numeral) : Option Int :=
  if n.fraction.isEmpty ∧ n.exponent.isNone then
    let value := valueOf 10 n.whole
    if n.negative then
      if value = 0 ∨ int64Max.toNat + 1 < value then none else some (-value)
    else if uint64Max < value then none else some value
  else none

/-- Scales a double by a power of ten, 308 places at a time. -/
def scaleFloat : Nat → Float → Int → Option Float
  | 0, x, _ => some x
  | steps + 1, x, e =>
    if e.natAbs ≤ 308 then
      let power := Decimal.toFloat ⟨1, e.natAbs⟩
      if 0 ≤ e then
        let y := x * power
        if y.isInf then none else some y
      else some (x / power)
    else if x == 0.0 then some x
    else if 0 ≤ e then none
    else scaleFloat steps (x / Decimal.toFloat ⟨1, 308⟩) (e + 308)

/-- The double that a numeral stands for, from the leading digits that fit into 64 bits; none when
it is too large. -/
def Numeral.float? (n : Numeral) : Option Float :=
  let (whole, taken) := appendDigits 0 0 n.whole
  let (significand, places) := appendDigits whole 0 n.fraction
  let shift : Int := ((n.whole.length - taken : Nat) : Int) - (places : Int)
  let exponent : Int := match n.exponent with
    | none => 0
    | some (negative, digits) =>
      let e : Int := min (valueOf 10 digits) (int32Max + 1)
      if negative then -e else e
  let magnitude := scaleFloat 12 (Float.ofNat significand) (shift + exponent)
  magnitude.map fun x => if n.negative then -x else x

/-- The double that a numeral stands for, also when it is a whole number of 64 bits. -/
def Numeral.real? (n : Numeral) : Option Float :=
  match n.integer? with
  | some k => some (Float.ofInt k)
  | none => n.float?

/-- The fault of a value that is not what was asked for. Its own faults come first. -/
def Reading.mismatch : Reading → Fault
  | .number n => if n.integer?.isSome || n.float?.isSome then .mismatched else .malformed
  | .text units =>
    match textOfUnits units with
    | .ok _ => .mismatched
    | .error f => f
  | .broken stop => stop.fault
  | .null | .bool _ | .list _ _ | .record _ _ => .mismatched

def Decoder.text : Decoder String
  | .text units => textOfUnits units
  | other => .error other.mismatch

def Decoder.bool : Decoder Bool
  | .bool b => .ok b
  | other => .error other.mismatch

def Decoder.whole (least greatest : Int) : Decoder Int
  | .number n =>
    match n.integer? with
    | some k => if least ≤ k ∧ k ≤ greatest then .ok k else .error .mismatched
    | none => .error (Reading.number n).mismatch
  | other => .error other.mismatch

/-- A number of 32 bits with a sign. -/
def Decoder.int32 : Decoder Int32 := fun r =>
  (Decoder.whole int32Min int32Max r).map Int32.ofInt

/-- A number of 32 bits without a sign. -/
def Decoder.uint32 : Decoder UInt32 := fun r =>
  (Decoder.whole 0 uint32Max r).map fun k => UInt32.ofNat k.toNat

/-- A number of 64 bits without a sign. -/
def Decoder.uint64 : Decoder UInt64 := fun r =>
  (Decoder.whole 0 uint64Max r).map fun k => UInt64.ofNat k.toNat

/-- A double; a whole number of 64 bits will do. -/
def Decoder.float : Decoder Float
  | .number n =>
    match n.real? with
    | some x => .ok x
    | none => .error .malformed
  | other => .error other.mismatch

def Decoder.nullable {α : Type} (d : Decoder α) : Decoder (Option α)
  | .null => .ok none
  | other => (d other).map some

/-- Decodes items in order. -/
def decodeItems {α : Type} (d : Decoder α) : List Reading → Except Fault (List α)
  | [] => .ok []
  | item :: rest =>
    match d item with
    | .error f => .error f
    | .ok a => (decodeItems d rest).map (a :: ·)

def Decoder.list {α : Type} (d : Decoder α) : Decoder (List α)
  | .list items stop =>
    match decodeItems d items, stop with
    | .error f, _ => .error f
    | .ok _, some b => .error b.fault
    | .ok as, none => .ok as
  | other => .error other.mismatch

/-- Decodes members of any names in order. -/
def decodeMembers {α : Type} (d : Decoder α) :
    List (List TextUnit × Reading) → Except Fault (List (String × α))
  | [] => .ok []
  | (units, value) :: rest =>
    match textOfUnits units with
    | .error f => .error f
    | .ok name =>
      match d value with
      | .error f => .error f
      | .ok a => (decodeMembers d rest).map ((name, a) :: ·)

def Decoder.dictionary {α : Type} (d : Decoder α) : Decoder (List (String × α))
  | .record members stop =>
    match decodeMembers d members, stop with
    | .error f, _ => .error f
    | .ok _, some b => .error b.fault
    | .ok as, none => .ok as
  | other => .error other.mismatch

/-- A field of a record that is filled step by step in a draft. -/
structure RecordField (δ : Type) where
  name : String
  isSet : δ → Bool
  fill : δ → Decoder δ
  isOptional : Bool

def RecordField.slot {δ α : Type} (name : String) (isOptional : Bool) (get : δ → Option α)
    (set : δ → α → δ) (d : Decoder α) : RecordField δ :=
  { name, isOptional
    isSet := fun draft => (get draft).isSome
    fill := fun draft r => (d r).map (set draft) }

def RecordField.required {δ α : Type} (name : String) (get : δ → Option α) (set : δ → α → δ)
    (d : Decoder α) : RecordField δ :=
  .slot name false get set d

def RecordField.optional {δ α : Type} (name : String) (get : δ → Option α) (set : δ → α → δ)
    (d : Decoder α) : RecordField δ :=
  .slot name true get set d

/-- Fills a draft from members. A field may stand only once; other members are skipped. -/
def fillMembers {δ : Type} (fields : List (RecordField δ)) :
    δ → List (List TextUnit × Reading) → Except Fault δ
  | draft, [] => .ok draft
  | draft, (units, value) :: rest =>
    match textOfUnits units with
    | .error f => .error f
    | .ok name =>
      match fields.find? (·.name == name) with
      | some field =>
        if field.isSet draft then .error .mismatched
        else
          match field.fill draft value with
          | .error f => .error f
          | .ok draft => fillMembers fields draft rest
      | none =>
        match value.skipFault? with
        | some f => .error f
        | none => fillMembers fields draft rest

/-- Fills a draft from items in the order of the fields. -/
def fillItems {δ : Type} : List (RecordField δ) → δ → List Reading → Option Break → Except Fault δ
  | [], draft, [], none => .ok draft
  | [], _, [], some b => .error b.fault
  | [], _, _ :: _, _ => .error .malformed
  | field :: fields, draft, item :: items, stop =>
    match field.fill draft item with
    | .error f => .error f
    | .ok draft => fillItems fields draft items stop
  | _ :: _, _, [], some b => .error b.fault
  | field :: fields, draft, [], none =>
    if field.isOptional then fillItems fields draft [] none else .error .mismatched

/-- A record, or a list of its fields in order. -/
def Decoder.record {δ α : Type} (fields : List (RecordField δ)) (blank : δ)
    (finish : δ → Option α) : Decoder α := fun r =>
  let draft : Except Fault δ := match r with
    | .record members stop =>
      match fillMembers fields blank members, stop with
      | .ok _, some b => .error b.fault
      | found, _ => found
    | .list items stop => fillItems fields blank items stop
    | other => .error other.mismatch
  match draft with
  | .error f => .error f
  | .ok draft =>
    match finish draft with
    | some a => .ok a
    | none => .error .mismatched

def decode {α : Type} (d : Decoder α) (s : String) : Except Fault α :=
  match read s.toList with
  | (r, rest) =>
    match d r with
    | .error f => .error f
    | .ok a =>
      match rest with
      | some t => if (skipBlank t).isEmpty then .ok a else .error .malformed
      | none => .error .truncated

end DeadlockCapture.Json
