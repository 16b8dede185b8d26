import DeadlockCapture.Configuration.Slot

/-!
Settings from the environment. The variable `DEADWATCH_OUTPUT__FILE` stands for the setting
`output.file`; capital letters do not count.
-/

namespace DeadlockCapture.Configuration

/-- The beginning of the names of the variables that are settings. -/
def variableMark : List Char :=
  "deadwatch_".toList

def withLevels : List Char → List Char
  | '_' :: '_' :: r => '.' :: withLevels r
  | c :: r => c :: withLevels r
  | [] => []

def settingName? (name : String) : Option String :=
  let name := Text.lower name.toList
  if variableMark.isPrefixOf name then
    some (String.ofList (withLevels (name.drop variableMark.length)))
  else none

def Setting.ofVariable (value : String) : Setting :=
  let word := String.ofList (Text.lower value.toList)
  if word = "true" then .bool true
  else if word = "false" then .bool false
  else
    match Text.signed? int64Min int64Max value.toList, Decimal.read value.toList with
    | some n, _ => .whole n
    | none, .ok x => .real x
    | none, .error _ => .text value

/-- The settings among the variables of the environment, in order. -/
def settingsAmong (environment : List (String × String)) : List (String × Setting) :=
  environment.filterMap fun v => (settingName? v.1).map fun name => (name, Setting.ofVariable v.2)

end DeadlockCapture.Configuration
