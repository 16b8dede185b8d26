import DeadlockCapture.Log
import DeadlockCapture.Report.DocumentRedaction
import DeadlockCapture.Report.Row

/-!
Rows for a list of events, as many as fit into a payload. What does not fit is left for later, and
nothing is cut off. The first row is always taken, so that one large deadlock does not hold up the
others.
-/

namespace DeadlockCapture.Report

open DeadlockCapture.Sql (RedactionOptions)

structure Assembler where
  options : RedactionOptions := {}
  /-- Redact the statements in the documents that are handed out. -/
  redactsDocuments : Bool := true
deriving DecidableEq

namespace Assembler

def signatureOf (a : Assembler) (p : Participant) : Signature :=
  if p.hasInputBuffer then a.options.signature p.session p.inputBuffer
  else .ofNormalized p.session .empty

/-- The first process of each session; `seen` are the sessions of those before. -/
def firstProcesses (seen : List SessionId) : List Participant → List Participant
  | [] => []
  | p :: r =>
    if seen.contains p.session then firstProcesses seen r
    else p :: firstProcesses (p.session :: seen) r

/-- One signature for each session of a graph, in the order of their first processes. -/
def signatures (a : Assembler) (g : Graph) : List Signature :=
  (firstProcesses [] g.processes).map a.signatureOf

def statementLog (statement : String) : List LogEvent :=
  if (Sql.unclosed? statement).isSome then [.unreadableStatement] else []

def signatureLog (g : Graph) : List LogEvent :=
  (firstProcesses [] g.processes).flatMap fun p =>
    if p.hasInputBuffer then statementLog p.inputBuffer else []

def redactionLog (a : Assembler) (document : String) : List LogEvent :=
  if a.redactsDocuments then
    match deadlockOf document with
    | .ok deadlock => (redactedStatements document deadlock).flatMap statementLog
    | .error _ => []
  else []

/-- The graph of a document, and the document as it is handed out. -/
def readDocument (a : Assembler) (document : String) : Except Rejection (Graph × String) :=
  if a.redactsDocuments then readGraphAndRedaction a.options document
  else (readGraph document).map fun g => (g, document)

def buildRow (a : Assembler) (e : Event) : Row :=
  match a.readDocument e.document with
  | .ok (graph, document) => .parsed e.time document (a.signatures graph)
  | .error r => .failed e.time r.message

def rowLog (a : Assembler) (e : Event) : List LogEvent :=
  match a.readDocument e.document with
  | .ok (graph, _) => a.redactionLog e.document ++ signatureLog graph
  | .error _ => [.rejectedDocument]

end Assembler

structure Assembly where
  rows : List Row
  deferred : Nat
  /-- The bytes of the rows as one compact JSON list. -/
  bytes : Nat
  /-- The rows whose documents could not be read. -/
  parseErrors : Nat
  log : List LogEvent

namespace Assembly

def empty : Assembly :=
  ⟨[], 0, 2, 0, []⟩

def lastTime? (a : Assembly) : Option Time.Instant :=
  a.rows.getLast?.map Row.time

/-- The bytes with one more row; a comma stands between two rows. -/
def bytesWith (a : Assembly) (row : Row) : Nat :=
  a.bytes + (if a.rows.isEmpty then 0 else 1) + row.size

def push (a : Assembly) (row : Row) (log : List LogEvent) : Assembly where
  rows := a.rows ++ [row]
  deferred := a.deferred
  bytes := a.bytesWith row
  parseErrors := a.parseErrors + (if row.isError then 1 else 0)
  log := a.log ++ log

end Assembly

namespace Assembler

def extend (a : Assembler) (maxBytes : Nat) (done : Assembly) : List Event → Assembly
  | [] => done
  | e :: r =>
    let row := a.buildRow e
    let log := a.rowLog e
    if maxBytes < done.bytesWith row then
      if done.rows.isEmpty then
        a.extend maxBytes (done.push row (log ++ [.oversizedDeadlock])) r
      else { done with deferred := r.length + 1, log := done.log ++ log ++ [.fullPayload] }
    else a.extend maxBytes (done.push row log) r

/-- The rows of events, as many as fit into a number of bytes. -/
def assemble (a : Assembler) (maxBytes : Nat) (events : List Event) : Assembly :=
  let done := a.extend maxBytes .empty events
  { done with log := done.log ++ [.assembledBatch] }

end Assembler

end DeadlockCapture.Report
