import DeadlockCapture.Report.DocumentFault
import DeadlockCapture.Report.Graph
import DeadlockCapture.Xml.Lookup

/-!
The graph that a document describes. The first element named `deadlock` counts, wherever it stands.
Resources and victims name processes by their ids; a name that no process has is passed over.
-/

namespace DeadlockCapture.Report

open DeadlockCapture.Xml (Node)

/-- The value of a numeric attribute, 0 unless it is a number up to a bound. -/
def numericAttribute (bound : Nat) (n : Node) (name : String) : Nat :=
  ((n.attribute? name).bind fun v => Text.unsigned? bound (Text.trim v.toList)).getD 0

def sessionId? (value : String) : Option SessionId :=
  (Text.signed? int32Min int32Max (Text.trim value.toList)).map Int32.ofInt

def Frame.ofNode (n : Node) : Frame :=
  { procedure := n.attributeText "procname"
    line := UInt32.ofNat (numericAttribute uint32Max n "line")
    handle := n.attributeText "sqlhandle"
    text := n.textContent }

def framesOf (process : Node) : List Frame :=
  match process.child? "executionStack" with
  | some stack => (stack.childrenNamed "frame").map Frame.ofNode
  | none => []

def inputBufferOf (process : Node) : String :=
  ((process.child? "inputbuf").map Node.textContent).getD ""

def Participant.ofNode (n : Node) : Except DocumentFault Participant :=
  match sessionId? (n.attributeText "spid") with
  | none => .error (.invalidSession (n.attributeText "spid"))
  | some session =>
    .ok
      { id := n.attributeText "id"
        session
        waitMillis := UInt64.ofNat (numericAttribute uint64Max n "waittime")
        lockMode := n.attributeText "lockMode"
        isolation := n.attributeText "isolationlevel"
        inputBuffer := inputBufferOf n
        waitResource := n.attributeText "waitresource"
        database := UInt32.ofNat (numericAttribute uint32Max n "currentdb")
        transaction := n.attributeText "transactionname"
        frames := framesOf n }

/-- The processes of a list; the first that is not accepted counts. -/
def processesOf : List Node → Except DocumentFault (List Participant)
  | [] => .ok []
  | n :: r =>
    match Participant.ofNode n with
    | .error f => .error f
    | .ok p => (processesOf r).map (p :: ·)

/-- The session of the process with an id; of several the last. -/
def sessionOf? (processes : List Participant) (id : String) : Option SessionId :=
  (processes.reverse.find? (·.id == id)).map (·.session)

def namedSessions (processes : List Participant) (list : Option Node) (item : String) :
    SessionSet :=
  match list with
  | none => .empty
  | some list =>
    .ofList <| (list.childrenNamed item).filterMap fun n =>
      (n.attribute? "id").bind (sessionOf? processes)

def Resource.ofNode (processes : List Participant) (n : Node) : Resource :=
  { kind := String.ofList (n.name?.getD [])
    object := n.attributeText "objectname"
    index := n.attributeText "indexname"
    database := UInt32.ofNat (numericAttribute uint32Max n "dbid")
    mode := n.attributeText "mode"
    owners := namedSessions processes (n.child? "owner-list") "owner"
    waiters := namedSessions processes (n.child? "waiter-list") "waiter" }

/-- The victims, named in a list or, in older documents, by an attribute. -/
def victimsOf (processes : List Participant) (deadlock : Node) : SessionSet :=
  let listed := namedSessions processes (deadlock.child? "victim-list") "victimProcess"
  match (deadlock.attribute? "victim").bind (sessionOf? processes) with
  | some session => listed.insert session
  | none => listed

def deadlockIn (root : Node) : Except DocumentFault Node :=
  match root.descendants.find? (·.isNamed "deadlock") with
  | some n => .ok n
  | none => .error (.missing "deadlock")

def Graph.ofDeadlock (deadlock : Node) : Except DocumentFault Graph :=
  match deadlock.child? "process-list" with
  | none => .error (.missing "process-list")
  | some processList =>
    match deadlock.child? "resource-list" with
    | none => .error (.missing "resource-list")
    | some resourceList =>
      match processesOf (processList.childrenNamed "process") with
      | .error f => .error f
      | .ok processes =>
        .ok
          { processes
            resources := resourceList.elements.map (Resource.ofNode processes)
            victims := victimsOf processes deadlock }

def rootOf (document : String) : Except DocumentFault Node :=
  match Xml.parse document with
  | .error f => .error (.malformed f)
  | .ok root => .ok root

/-- The element of a document that describes the deadlock. -/
def deadlockOf (document : String) : Except DocumentFault Node :=
  match rootOf document with
  | .error f => .error f
  | .ok root => deadlockIn root

def Graph.ofDocument (document : String) : Except DocumentFault Graph :=
  match deadlockOf document with
  | .error f => .error f
  | .ok deadlock => Graph.ofDeadlock deadlock

/-- The graph of a document that is not rejected. -/
def readGraph (document : String) : Except Rejection Graph :=
  orRejected document (Graph.ofDocument document)

end DeadlockCapture.Report
