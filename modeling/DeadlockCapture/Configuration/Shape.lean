import DeadlockCapture.Configuration.Setting
import DeadlockCapture.Json.Decoder

/-!
The shape that a setting takes: what its value has to stand for. A setting that fits is turned into
the JSON value it stands for, so that one decoder serves for both.
-/

namespace DeadlockCapture.Configuration

open Json (Numeral Reading TextUnit)

/-- What the value of a setting has to stand for. -/
inductive Shape where
  | bool
  | natural
  | text
  | texts
  | optionalText
  /-- A table. A list will do; its items are the members in order. -/
  | table (fields : List (String × Shape))

def numeralOf (n : Nat) : Numeral :=
  { negative := false, whole := Text.decimal n, fraction := [], exponent := none }

def unitsOf (s : String) : List TextUnit :=
  s.toList.map .plain

namespace Setting

def textReading? (s : Setting) : Option Reading :=
  s.text?.map fun text => .text (unitsOf text)

def textsReading? : Setting → Option Reading
  | .list items => (items.mapM textReading?).map (.list · none)
  | _ => none

def membersFor (names : List String) : Setting → Option (List (String × Setting))
  | .table members => some members
  | .list items => some (names.zip items)
  | _ => none

mutual

/-- The JSON value that a setting of some shape stands for. -/
def reading? : Shape → Setting → Option Reading
  | .bool, s => s.bool?.map .bool
  | .natural, s => s.natural?.map fun n => .number (numeralOf n)
  | .text, s => s.textReading?
  | .texts, s => s.textsReading?
  | .optionalText, .absent => some .null
  | .optionalText, s => s.textReading?
  | .table fields, s =>
    match s.membersFor (fields.map (·.1)) with
    | none => none
    | some members => (memberReadings fields members).map (.record · none)

/-- The members that fields ask for. Other members do not count. -/
def memberReadings : List (String × Shape) → List (String × Setting) →
    Option (List (List TextUnit × Reading))
  | [], _ => some []
  | (name, shape) :: rest, members =>
    match members.find? (·.1 == name) with
    | none => memberReadings rest members
    | some (_, s) =>
      match reading? shape s, memberReadings rest members with
      | some r, some found => some ((unitsOf name, r) :: found)
      | _, _ => none

end

end Setting

end DeadlockCapture.Configuration
