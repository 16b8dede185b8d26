import DeadlockCapture.Decimal.Reading
import DeadlockCapture.Text.Blank
import DeadlockCapture.Time.Span

/-!
Spans of time as they are written in settings: a number and a unit, such as `1.5h`.
-/

namespace DeadlockCapture.Time

/-- The units and their nanoseconds. Of two that fit the first counts. -/
def spanUnits : List (List Char × Float) :=
  [(['n', 's'], 1.0), (['\u00b5', 's'], 1e3), (['u', 's'], 1e3), (['m', 's'], 1e6), (['s'], 1e9),
   (['m'], 6e10), (['h'], 3.6e12)]

inductive SpanFault where
  | number (f : Decimal.ReadFault)
  | negative (text : String)
  | unit (text : String)
deriving DecidableEq, Repr

def SpanFault.message : SpanFault → String
  | .number f => f.message
  | .negative text => "Duration must be a non-negative number: " ++ text
  | .unit text => "Unknown duration format: " ++ text

/-- The text before a unit. -/
def beforeUnit? (unit s : List Char) : Option (List Char) :=
  if unit.isSuffixOf s then some (s.take (s.length - unit.length)) else none

/-- The number and the nanoseconds of the unit of a text. -/
def numberAndUnit? (s : List Char) : Option (List Char × Float) :=
  spanUnits.findSome? fun u => (beforeUnit? u.1 s).map fun number => (number, u.2)

/-- The span that a text stands for; fractions of a nanosecond are dropped, and a span of more than
64 bits of nanoseconds is the greatest one. -/
def Span.ofText (text : String) : Except SpanFault Span :=
  let s := Text.trim text.toList
  match numberAndUnit? s with
  | none => .error (.unit (String.ofList s))
  | some (number, nanos) =>
    match Decimal.read (Text.trim number) with
    | .error f => .error (.number f)
    | .ok x =>
      if x.isFinite ∧ !(x < 0.0) then .ok ⟨(x * nanos).toUInt64.toNat⟩
      else .error (.negative (String.ofList s))

end DeadlockCapture.Time
