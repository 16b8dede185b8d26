import DeadlockCapture.Report.SessionSet

/-!
The graph of a deadlock: the processes that block one another, and the resources they fight over.
A resource names the sessions that own it and those that wait for it.
-/

namespace DeadlockCapture.Report

/-- A frame of a process's execution stack. -/
structure Frame where
  procedure : String
  line : UInt32
  handle : String := ""
  text : String := ""
deriving DecidableEq

/-- A process that takes part in a deadlock. What the document does not say is 0 or empty. -/
structure Participant where
  id : String
  session : SessionId
  waitMillis : UInt64
  lockMode : String
  isolation : String
  inputBuffer : String
  waitResource : String := ""
  database : UInt32 := 0
  transaction : String := ""
  frames : List Frame := []
deriving DecidableEq

def Participant.hasInputBuffer (p : Participant) : Bool :=
  !p.inputBuffer.isEmpty

/-- A resource that processes fight over. -/
structure Resource where
  kind : String
  object : String
  index : String := ""
  database : UInt32 := 0
  mode : String := ""
  owners : SessionSet
  waiters : SessionSet
deriving DecidableEq

def Resource.involves (r : Resource) (session : SessionId) : Bool :=
  r.owners.contains session || r.waiters.contains session

/-- The graph of a deadlock, its parts in document order. -/
structure Graph where
  processes : List Participant
  resources : List Resource
  victims : SessionSet := .empty
deriving DecidableEq

namespace Graph

def process? (g : Graph) (session : SessionId) : Option Participant :=
  g.processes.find? (·.session == session)

/-- Keeps the first of equal ids; `seen` are those that came before. -/
def distinctAfter (seen : List SessionId) : List SessionId → List SessionId
  | [] => []
  | id :: r =>
    if seen.contains id then distinctAfter seen r else id :: distinctAfter (id :: seen) r

/-- The sessions of the processes, each once, in the order of their first process. -/
def sessions (g : Graph) : List SessionId :=
  distinctAfter [] (g.processes.map (·.session))

def resourcesOf (g : Graph) (session : SessionId) : List Resource :=
  g.resources.filter (·.involves session)

def isEmpty (g : Graph) : Bool :=
  g.processes.isEmpty && g.resources.isEmpty

end Graph

end DeadlockCapture.Report
