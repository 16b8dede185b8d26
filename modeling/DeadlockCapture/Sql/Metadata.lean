import DeadlockCapture.Sql.Token

/-!
The verbs and the tables of a redacted statement.
-/

namespace DeadlockCapture.Sql

def verbs : List String :=
  ["SELECT", "INSERT", "UPDATE", "DELETE", "MERGE", "EXEC", "EXECUTE", "CREATE", "ALTER", "DROP",
   "TRUNCATE", "GRANT", "REVOKE", "COMMIT", "ROLLBACK"]

def tableIntroducers : List String :=
  ["FROM", "JOIN", "UPDATE", "INTO", "TABLE", "MERGE"]

/-- The words that may follow an introducer and name no table. -/
def notTables : List String :=
  ["SELECT", "INTO", "TOP", "IF", "EXISTS", "WITH", "SET", "WHERE", "ON", "AS", "VALUES",
   "DEFAULT", "OPENJSON", "OPENQUERY", "OPENROWSET"]

def Token.isName (t : Token) : Bool :=
  t.kind == .word || t.kind == .quotedName

/-- The parts of a dotted name that follow its first part without a gap. -/
def dottedParts : List Token → List Char
  | dot :: part :: r =>
    if dot.text = ['.'] ∧ !dot.spaced ∧ !part.spaced ∧ part.isName then
      '.' :: part.text ++ dottedParts r
    else []
  | _ => []

def tableName? : List Token → Option String
  | first :: r =>
    if first.isName && !(first.kind == .word && notTables.contains first.upper) then
      some (String.ofList (first.text ++ dottedParts r))
    else none
  | [] => none

def verb? (t : Token) : Option String :=
  if t.kind = .word ∧ verbs.contains t.upper then some t.upper else none

/-- The verbs of a statement, in order. -/
def verbsOf (ts : List Token) : List String :=
  ts.filterMap verb?

/-- The tables of a statement, in order. -/
def tablesOf : List Token → List String
  | [] => []
  | t :: r =>
    if t.kind = .word ∧ tableIntroducers.contains t.upper then
      (tableName? r).toList ++ tablesOf r
    else tablesOf r

def distinct (names : List String) : List String :=
  names.foldl (fun seen name => if seen.contains name then seen else seen ++ [name]) []

end DeadlockCapture.Sql
