import DeadlockCapture.Source.Polling
import DeadlockCapture.Storage.Files

/-!
A source that plays back recorded deadlocks from a file. The file holds a JSON list of events and is
read anew for each poll.
-/

namespace DeadlockCapture.Source.Replay

open Report (Event)
open Storage (Denial Files WrittenPath)
open Time (Instant)

def eventsOf (content : String) : Except Fault (List Event) :=
  match Json.decode (Json.Decoder.list Event.decoder) content with
  | .ok events => .ok events
  | .error _ => .error (.decode "the capture is not a list of events")

/-- The oldest events after an instant, of the events that a capture holds. -/
def serve (held : Except Fault (List Event)) (since : Instant) (limit : Nat) :
    Except Fault (List Event) :=
  held.map (oldestSince since limit)

/-- The oldest events after an instant, of a capture that is read or refused. -/
def answer (content : Except Denial String) (since : Instant) (limit : Nat) :
    Except Fault (List Event) :=
  match content with
  | .error d => .error (.read d.message)
  | .ok content => serve (eventsOf content) since limit

def fetch (files : Files) (path : WrittenPath) (since : Instant) (limit : Nat) :
    Except Fault (List Event) :=
  answer (files.read path) since limit

def description (path : WrittenPath) : String :=
  "replay: " ++ path.text

end DeadlockCapture.Source.Replay
