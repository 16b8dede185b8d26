import DeadlockCapture.Collection.Surroundings
import DeadlockCapture.CommandLine.Plan
import DeadlockCapture.Configuration.Loading
import DeadlockCapture.Source.Replay
import Std.Async.DNS
import Std.Async.Signal
import Std.Async.TCP
import Std.Time.DateTime.Timestamp

/-!
The program on a real machine: it reads and writes files, connects to servers, looks at the clock
and waits for the next cycle or an interrupt.
-/

namespace DeadlockCapture.Machine

open Collection (Collector Cycle Surroundings)
open CommandLine (Arguments Job Request)
open Std.Async (Signal)
open Std.Async.TCP.Socket (Client)
open Storage (CheckpointFault Denial WrittenPath)
open Time (Instant)

def denialOf (e : IO.Error) : Denial :=
  match e with
  | .noFileOrDirectory _ _ _ => .missing
  | .inappropriateType _ 20 _ => .notFolder
  | .inappropriateType _ 21 _ => .isFolder
  | e => .other e.toString

def attempt {α : Type} (act : IO α) : IO (Except Denial α) := do
  try
    return .ok (← act)
  catch e =>
    return .error (denialOf e)

def readText (path : WrittenPath) : IO (Except Denial String) :=
  attempt (IO.FS.readFile path.text)

def appendText (path : WrittenPath) (text : String) : IO (Except Denial Unit) :=
  attempt do
    let file ← IO.FS.Handle.mk path.text .append
    file.putStr text
    file.flush

def saveMark (path : WrittenPath) (mark : Mark) : IO (Option CheckpointFault) := do
  match Storage.marksOf (← readText path) with
  | .error f => return some f
  | .ok marks =>
    let saved ← attempt do
      if let some folder := path.folder? then IO.FS.createDirAll folder
      let temporary := Storage.temporary path
      IO.FS.writeFile temporary.text (marks.insert mark.instanceName mark.value).text
      IO.FS.rename temporary.text path.text
    match saved with
    | .ok _ => return none
    | .error d => return some (.denied d)

def loadMark (store : Storage.Store) (name : String) :
    IO (Except CheckpointFault (Option Instant)) := do
  match store with
  | .memory marks => return .ok (marks.get? name)
  | .file path => return (Storage.marksOf (← readText path)).map (·.get? name)

def serviceAt (service : UInt16) : Std.Net.IPAddr → Std.Net.SocketAddress
  | .v4 host => .v4 ⟨host, service⟩
  | .v6 host => .v6 ⟨host, service⟩

/-- A host's name without the brackets of a numerical address. -/
def plainHost (host : List Char) : String :=
  String.ofList (host.filter fun c => c ≠ '[' ∧ c ≠ ']')

/-- Sends a text to a server over a connection of its own. -/
def sendText (address text : String) : IO (Except Denial Unit) := do
  match Sink.splitAddress address with
  | none => return .error .noAddress
  | some (host, service) =>
    match Text.unsigned? 65535 service with
    | none => return .error .noService
    | some service => attempt do
      let found ← (Std.Async.DNS.getAddrInfo (plainHost host) (toString service) none).block
      let some server := found[0]? | throw (IO.userError "the host has no address")
      let client ← Client.mk
      (client.connect (serviceAt (UInt16.ofNat service) server)).block
      (client.send text.toUTF8).block
      client.shutdown.block

def emit (o : Sink.Output) (p : Report.Payload) : IO (Option Sink.Fault) := do
  let sent ← match o with
    | .file path => appendText path (Sink.Outlets.line p)
    | .tcp address => sendText address (Sink.Outlets.line p)
    | .console => attempt do
      let console ← IO.getStdout
      console.putStr (Sink.Outlets.display p)
      console.flush
    | .channel _ => return some .channelClosed
  match sent with
  | .ok _ => return none
  | .error d => return some (.denied d)

def stamp : IO UInt64 := do
  let now ← Std.Time.Timestamp.now
  return UInt64.ofNat now.toMillisecondsSinceUnixEpoch.val.toNat

def now : IO Instant := do
  let nanos : Int := (← Std.Time.Timestamp.now).toNanosecondsSinceUnixEpoch.val
  return (Instant.of? (nanos / 1000000000) (nanos % 1000000000).toNat).getD .epoch

def surroundings (job : Job) : Surroundings IO where
  fetch p since := do return Source.Replay.answer (← readText job.capture) since p.maxRows
  stamp := stamp
  emit := emit
  save mark := match job.store with
    | .memory _ => return none
    | .file path => saveMark path mark

/-- The line of the log for an event, in the form asked for. -/
def logLine (asJson : Bool) (e : LogEvent) : String :=
  if asJson then
    (Json.record [("level", .text e.level.name), ("message", .text e.message)]).compact
  else e.line

/-- Writes the log of a cycle, without what only matters to its makers. -/
def writeLog (asJson : Bool) (log : List LogEvent) : IO Unit :=
  (log.filter fun e => e.level ≠ .debug).forM fun e => IO.eprintln (logLine asJson e)

def giveUp (message : String) (causes : List String) : IO UInt32 := do
  IO.eprint (CommandLine.complaint message causes)
  return 1

def fail (f : Collection.Failure) : IO UInt32 :=
  giveUp f.message (CommandLine.causesOf f)

/-- Waits until an instant of the steady clock, or until an interrupt. -/
partial def waitUntil (due : Nat) (interrupt : Task (Except IO.Error Int)) : IO Unit := do
  let clock ← IO.monoMsNow
  if clock < due ∧ !(← IO.hasFinished interrupt) then
    IO.sleep (UInt32.ofNat (min 50 (due - clock)))
    waitUntil due interrupt

/-- Runs a cycle every interval until an interrupt. -/
partial def workOn (asJson : Bool) (job : Job) (interrupt : Task (Except IO.Error Int))
    (c : Collector) : IO Unit := do
  let due := (← IO.monoMsNow) + (c.settings.interval.nanos + 999999) / 1000000
  if let some done ← c.runCycle (surroundings job) (← now) then
    writeLog asJson done.log
    waitUntil due interrupt
    unless ← IO.hasFinished interrupt do workOn asJson job interrupt done.collector

def perform (asJson : Bool) (job : Job) : IO UInt32 := do
  match ← loadMark job.store job.settings.instanceName with
  | .error f => fail (.checkpoint f)
  | .ok saved =>
    let c := Collector.new job.settings saved .epoch
    if job.once then
      match ← c.runCycle (surroundings job) (← now) with
      | none => return 0
      | some done =>
        writeLog asJson done.log
        match done.progress with
        | .ended (.error f) => fail f
        | .ended (.ok _) | .waits _ => return 0
    else
      let waiter ← Signal.Waiter.mk .sigint false
      workOn asJson job (← waiter.wait) c
      return 0

/-- The variables of the environment and their values, where the system shows them as a file. -/
def environment : IO (List (String × String)) := do
  match ← attempt (IO.FS.readBinFile "/proc/self/environ") with
  | .error _ => return []
  | .ok bytes =>
    let texts := (bytes.toList.splitOn 0).filterMap fun b => String.fromUTF8? ⟨b.toArray⟩
    return texts.filterMap fun text =>
      (text.toList.idxOf? '=').map fun i =>
        (String.ofList (text.toList.take i), String.ofList (text.toList.drop (i + 1)))

/-- The text of the settings file that a path names, with or without the extension. -/
def settingsText (path : WrittenPath) : IO (Option String) := do
  match ← readText path with
  | .ok text =>
    return if path.extension? = some Configuration.fileExtension then
      some (Configuration.withoutMark text) else none
  | .error _ =>
    let text ← readText (path.addExtension Configuration.fileExtension)
    return text.toOption.map Configuration.withoutMark

def loadConfiguration (path : Option WrittenPath) :
    IO (Except Configuration.Fault (Configuration × Configuration.Timing)) := do
  match path with
  | none => return Configuration.load none (← environment)
  | some path =>
    match ← settingsText path with
    | none => return .error .unread
    | some text => return Configuration.load (some text) (← environment)

def runWith (a : Arguments) : IO UInt32 := do
  match CommandLine.plan a (← loadConfiguration a.config) with
  | .write text => do
    IO.print text
    return 0
  | .refuse message causes => giveUp message causes
  | .collect job => perform a.logJson job

end DeadlockCapture.Machine

def main (args : List String) : IO UInt32 := do
  match DeadlockCapture.CommandLine.Request.ofArguments args with
  | none => do
    IO.eprint DeadlockCapture.CommandLine.usageText
    return 2
  | some .help => do
    IO.print DeadlockCapture.CommandLine.helpText
    return 0
  | some (.run a) => DeadlockCapture.Machine.runWith a
