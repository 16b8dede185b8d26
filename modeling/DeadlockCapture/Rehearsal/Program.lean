import DeadlockCapture.CommandLine.Plan
import DeadlockCapture.Configuration.Loading
import DeadlockCapture.Rehearsal.Stage
import DeadlockCapture.Source.Replay

/-!
The whole program on a stage: the files and the console are those of the stage, and whoever
interrupts the program lets it run a number of cycles before.
-/

namespace DeadlockCapture.Rehearsal

open Collection (Collector Cycle Surroundings)
open CommandLine (Arguments Job Request)
open Time (Instant)

structure Ending where
  /-- The exit code: 0 when all is well, 1 after a failure, 2 for malformed arguments. -/
  code : Nat := 0
  complaint : String := ""
deriving DecidableEq, Repr

def Ending.refusal (message : String) (causes : List String) : Ending :=
  { code := 1, complaint := CommandLine.complaint message causes }

def Ending.failure (f : Collection.Failure) : Ending :=
  .refusal f.message (CommandLine.causesOf f)

namespace Stage

def write (s : Stage) (text : String) : Stage :=
  { s with outlets := { s.outlets with console := s.outlets.console ++ text } }

/-- The surroundings of a collector that plays back a capture. -/
def playback (job : Job) : Surroundings (StateM Stage) :=
  surroundings fun p since => do
    let s ← get
    pure (Source.Replay.fetch s.outlets.files job.capture since p.maxRows)

def work (s : Stage) (job : Job) (c : Collector) : Option Cycle × Stage :=
  (c.runCycle (playback job) s.now).run s

def workRounds (job : Job) : Nat → Collector → Stage → Stage
  | 0, _, s => s
  | rounds + 1, c, s =>
    match s.work job c with
    | (some done, s) => workRounds job rounds done.collector s
    | (none, s) => s

/-- Does a job. Without an end of its own it is interrupted after some rounds. -/
def perform (s : Stage) (job : Job) (rounds : Nat) : Ending × Stage :=
  match { s with store := job.store }.build job.settings .epoch with
  | (.error f, s) => (.failure f, s)
  | (.ok c, s) =>
    if job.once then
      match s.work job c with
      | (some ⟨_, .ended (.error f), _⟩, s) => (.failure f, s)
      | (_, s) => ({}, s)
    else ({}, workRounds job rounds c s)

def runProgram (s : Stage) (args : List String) (environment : List (String × String))
    (rounds : Nat) : Ending × Stage :=
  match Request.ofArguments args with
  | none => ({ code := 2, complaint := CommandLine.usageText }, s)
  | some .help => ({}, s.write CommandLine.helpText)
  | some (.run a) =>
    match CommandLine.plan a (Configuration.loadFrom s.outlets.files a.config environment) with
    | .write text => ({}, s.write text)
    | .refuse message causes => (.refusal message causes, s)
    | .collect job => s.perform job rounds

end Stage

end DeadlockCapture.Rehearsal
