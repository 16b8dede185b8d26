import DeadlockCapture.CommandLine.Arguments
import DeadlockCapture.Configuration.Basic

/-!
What the program sets out to do with its arguments and its settings. Arguments win over settings.
-/

namespace DeadlockCapture.CommandLine

open Collection (Failure Settings)
open DeadlockCapture.Configuration (Timing)
open Sink (Output)
open Storage (WrittenPath Store)

/-- The collecting of deadlocks from a capture. -/
structure Job where
  settings : Settings
  capture : WrittenPath
  store : Store
  once : Bool

inductive Plan where
  | write (text : String)
  | refuse (message : String) (causes : List String)
  | collect (job : Job)

def outputOf (a : Arguments) (d : Destination) : Output :=
  match a.output, a.connect, d.file, d.tcp with
  | some path, _, _, _ => .file path
  | none, some address, _, _ => .tcp address
  | none, none, some path, _ => .file path
  | none, none, none, some address => .tcp address
  | none, none, none, none => .console

/-- The settings of the collector. A capture is played back from its first event, so that there is
no bound on looking back. -/
def settingsOf (a : Arguments) (c : Configuration) (t : Timing) : Settings :=
  { instanceName := c.instanceName
    host := c.hostName
    tags := c.tags
    enabled := c.enabled
    interval := t.interval
    maxPayloadBytes := c.maxPayloadBytes
    poller := { ({} : Source.Poller).withMaxRows c.maxRows with timeout := t.timeout }
    assembler := ⟨c.redaction, c.redactXml⟩
    sinks := [outputOf a c.output] }

def storeOf (c : Configuration) : Store :=
  c.checkpointPath.elim (.memory .empty) .file

def noSource : String :=
  "No database driver is built into deadwatch; pass --replay <events.json>, " ++
  "or embed deadlock-sdk with a QueryExecutor for your driver"

def collecting (a : Arguments) (c : Configuration) (t : Timing) : Plan :=
  match a.replay with
  | none => .refuse noSource []
  | some capture =>
    .collect { settings := settingsOf a c t, capture, store := storeOf c, once := a.once }

def plan (a : Arguments) : Except Configuration.Fault (Configuration × Timing) → Plan
  | .error f => .refuse f.message f.causes
  | .ok (c, t) =>
    if a.printQuery then
      match Source.RingBuffer.sessionQuery c.sessionName with
      | .ok query => .write (query ++ "\n")
      | .error f => .refuse f.message []
    else collecting a c t

def causesOf : Failure → List String
  | .source (.read detail) => [(Source.Fault.read detail).message, detail]
  | .source f => [f.message]
  | .sink (.denied d) => [(Sink.Fault.denied d).message, d.message]
  | .sink f => [f.message]
  | .checkpoint (.denied d) => [(Storage.CheckpointFault.denied d).message, d.message]
  | .checkpoint f => [f.message]

def numbered (causes : List String) : List String :=
  causes.zipIdx.map fun (cause, i) => "    " ++ toString i ++ ": " ++ cause ++ "\n"

def complaint (message : String) (causes : List String) : String :=
  "Error: " ++ message ++ "\n" ++
    match causes with
    | [] => ""
    | [cause] => "\nCaused by:\n    " ++ cause ++ "\n"
    | _ => "\nCaused by:\n" ++ String.join (numbered causes)

end DeadlockCapture.CommandLine
