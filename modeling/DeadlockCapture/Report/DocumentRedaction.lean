import DeadlockCapture.Report.GraphOfDocument
import DeadlockCapture.Sql.Normalized

/-!
Redaction of a document: the content of every element that holds a statement is replaced by the
statement's normal form. All other characters are kept.
-/

namespace DeadlockCapture.Report

open DeadlockCapture.Sql (RedactionOptions)
open DeadlockCapture.Xml (Node)

/-- A change of a document: the stretch from `start` up to `stop` gives way to a replacement. -/
structure Edit where
  start : Nat
  stop : Nat
  replacement : List Char
deriving DecidableEq, Repr

/-- An element that holds a statement, by its name and the name of the element around it. -/
def holdsStatement (outer : List Char) (n : Node) : Bool :=
  n.isNamed "inputbuf" || (n.isNamed "frame" && outer == "executionStack".toList)

mutual

/-- The elements at and below a node that hold statements, in document order. -/
def statementNodes (outer : List Char) : Node → List Node
  | .element tag children =>
    let below := statementNodesOf tag.base children
    if holdsStatement outer (.element tag children) then .element tag children :: below else below
  | .text _ _ | .aside _ => []

/-- The elements among nodes and below them that hold statements. -/
def statementNodesOf (outer : List Char) : List Node → List Node
  | [] => []
  | n :: r => statementNodes outer n ++ statementNodesOf outer r

end

/-- The offset of the last `</` in a text, counted from its start. -/
def lastEndTag? (s : List Char) : Option Nat :=
  let rec go (offset : Nat) (found : Option Nat) : List Char → Option Nat
    | [] => found
    | c :: r =>
      go (offset + 1) (if c = '<' ∧ r.head? = some '/' then some offset else found) r
  go 0 none s

/-- The stretch between an element's start tag and its end tag. An empty element has none. -/
def contentStretch? (document : List Char) : Node → Option (Nat × Nat)
  | .element tag (first :: _) =>
    match lastEndTag? ((document.drop tag.start).take (tag.stop - tag.start)) with
    | some n =>
      if first.start ≤ tag.start + n then some (first.start, tag.start + n) else none
    | none => none
  | .element _ [] | .text _ _ | .aside _ => none

def replacementFor (o : RedactionOptions) (statement : String) : List Char :=
  Xml.escapeText (o.normalize statement).redacted.toList

def editOf? (o : RedactionOptions) (document : List Char) (n : Node) : Option Edit :=
  if n.textContent.isEmpty then none
  else
    (contentStretch? document n).map fun (start, stop) =>
      ⟨start, stop, replacementFor o n.textContent⟩

/-- Applies changes in order to the rest of a document that starts at `offset`. A change that starts
before the rest lies inside an earlier one and is passed over. -/
def applyEdits (offset : Nat) (rest : List Char) : List Edit → List Char
  | [] => rest
  | e :: r =>
    if e.start < offset then applyEdits offset rest r
    else
      rest.take (e.start - offset) ++ e.replacement ++
        applyEdits e.stop (rest.drop (e.stop - offset)) r

/-- The changes that redact a deadlock, in the order of their places. -/
def editsOf (o : RedactionOptions) (document : List Char) (deadlock : Node) : List Edit :=
  ((statementNodes [] deadlock).filterMap (editOf? o document)).mergeSort
    fun a b => decide (a.start ≤ b.start)

/-- A document with the statements of a deadlock redacted. -/
def redactDeadlock (o : RedactionOptions) (document : String) (deadlock : Node) : String :=
  String.ofList (applyEdits 0 document.toList (editsOf o document.toList deadlock))

/-- A document with the statements of its deadlock redacted. -/
def redactDocument (o : RedactionOptions) (document : String) : Except DocumentFault String :=
  match deadlockOf document with
  | .error f => .error f
  | .ok deadlock => .ok (redactDeadlock o document deadlock)

/-- The graph of a document, and the document with its statements redacted. -/
def readRedacted (o : RedactionOptions) (document : String) :
    Except DocumentFault (Graph × String) :=
  match deadlockOf document with
  | .error f => .error f
  | .ok deadlock =>
    match Graph.ofDeadlock deadlock with
    | .error f => .error f
    | .ok graph => .ok (graph, redactDeadlock o document deadlock)

/-- A document with its statements redacted, unless it is rejected. -/
def readRedaction (o : RedactionOptions) (document : String) : Except Rejection String :=
  orRejected document (redactDocument o document)

/-- The graph of a document that is not rejected, and the document with its statements redacted. -/
def readGraphAndRedaction (o : RedactionOptions) (document : String) :
    Except Rejection (Graph × String) :=
  orRejected document (readRedacted o document)

/-- The statements of a document that redaction replaces. -/
def redactedStatements (document : String) (deadlock : Node) : List String :=
  ((statementNodes [] deadlock).filter fun n =>
    !n.textContent.isEmpty && (contentStretch? document.toList n).isSome).map Node.textContent

end DeadlockCapture.Report
