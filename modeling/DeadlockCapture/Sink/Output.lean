import DeadlockCapture.Report.Payload
import DeadlockCapture.Storage.Files

/-!
Where payloads go: to a file, one line each, to a server, to a channel that other code reads, or to
the console.
-/

namespace DeadlockCapture.Sink

open Report (Payload)
open Storage (Denial Files WrittenPath)

/-- Why an output does not take a payload. -/
inductive Fault where
  | denied (d : Denial)
  | channelClosed
  | channelFull
deriving DecidableEq, Repr

def Fault.message : Fault → String
  | .denied d => "Write error: " ++ d.message
  | .channelClosed => "Channel closed"
  | .channelFull => "Channel full"

/-- An output. Channels are known by their numbers. -/
inductive Output where
  | file (path : WrittenPath)
  | tcp (address : String)
  | channel (index : Nat)
  | console
deriving DecidableEq, Repr

def Output.description : Output → String
  | .file path => "file: " ++ path.text
  | .tcp address => "tcp: " ++ address
  | .channel _ => "channel"
  | .console => "stdout"

/-- The host of an address and the number of the service there, as they are written. -/
def splitAddress (address : String) : Option (List Char × List Char) :=
  let back := address.toList.reverse
  let service := back.takeWhile (· ≠ ':')
  if service.length < back.length then
    some ((back.drop (service.length + 1)).reverse, service.reverse)
  else none

/-- Why no connection is made. The rehearsed world has no network: behind an address with a service
nobody answers. -/
def connectionDenial (address : String) : Denial :=
  match splitAddress address with
  | none => .noAddress
  | some (_, service) =>
    if (Text.unsigned? 65535 service).isSome then .unreachable else .noService

/-- Payloads on their way to a reader, the oldest first. -/
structure Channel where
  capacity : Nat
  waiting : List Payload := []
  isOpen : Bool := true

namespace Channel

def send (c : Channel) (p : Payload) : Except Fault Channel :=
  if !c.isOpen then .error .channelClosed
  else if c.capacity ≤ c.waiting.length then .error .channelFull
  else .ok { c with waiting := c.waiting ++ [p] }

def receive (c : Channel) : Option Payload × Channel :=
  match c.waiting with
  | [] => (none, c)
  | p :: rest => (some p, { c with waiting := rest })

/-- The reader goes away, and with it what is still on its way. -/
def close (c : Channel) : Channel :=
  { c with waiting := [], isOpen := false }

end Channel

/-- The outlets of the rehearsed world. It has files, channels and a console, and no network. -/
structure Outlets where
  files : Files := {}
  channels : List Channel := []
  console : String := ""

namespace Outlets

def line (p : Payload) : String :=
  p.toJson.compact ++ "\n"

def display (p : Payload) : String :=
  p.toJson.pretty ++ "\n"

def emit (w : Outlets) (p : Payload) : Output → Except Fault Outlets
  | .file path =>
    match w.files.append path (line p) with
    | .error d => .error (.denied d)
    | .ok files => .ok { w with files }
  | .tcp address => .error (.denied (connectionDenial address))
  | .channel index =>
    match w.channels[index]? with
    | none => .error .channelClosed
    | some c =>
      match c.send p with
      | .error f => .error f
      | .ok c => .ok { w with channels := w.channels.set index c }
  | .console => .ok { w with console := w.console ++ display p }

def receive (w : Outlets) (index : Nat) : Option Payload × Outlets :=
  match w.channels[index]? with
  | none => (none, w)
  | some c =>
    match c.receive with
    | (p, c) => (p, { w with channels := w.channels.set index c })

def close (w : Outlets) (index : Nat) : Outlets :=
  { w with channels := w.channels.modify index Channel.close }

end Outlets

end DeadlockCapture.Sink
