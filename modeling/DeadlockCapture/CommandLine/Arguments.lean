import DeadlockCapture.Storage.Files

/-!
The arguments of the command line. A parameter takes its value from the same word, as in
`--output=a` and `-oa`, or from the next one. Nothing may be given twice.
-/

namespace DeadlockCapture.CommandLine

open Storage (WrittenPath)

inductive Switch where
  | once
  | printQuery
  | logJson
deriving DecidableEq, Repr

inductive Parameter where
  | config
  | replay
  | output
  | connect
deriving DecidableEq, Repr

inductive Word where
  | help
  | switch (s : Switch)
  /-- A parameter, and its value if it stands in the same word. -/
  | parameter (p : Parameter) (value : Option String)
  | terminator
  | stranger
deriving DecidableEq, Repr

structure Arguments where
  config : Option WrittenPath := none
  replay : Option WrittenPath := none
  output : Option WrittenPath := none
  connect : Option String := none
  once : Bool := false
  printQuery : Bool := false
  logJson : Bool := false
deriving DecidableEq, Repr

/-- The word of a long name, and a value after an equals sign. -/
def longWord (name : String) (value : Option String) : Word :=
  match name, value with
  | "config", v => .parameter .config v
  | "replay", v => .parameter .replay v
  | "output", v => .parameter .output v
  | "connect", v => .parameter .connect v
  | "once", none => .switch .once
  | "print-query", none => .switch .printQuery
  | "log-json", none => .switch .logJson
  | "help", none => .help
  | _, _ => .stranger

/-- The value after a short name; an equals sign in front does not belong to it. -/
def shortValue : List Char → Option String
  | [] => none
  | '=' :: r => some (String.ofList r)
  | r => some (String.ofList r)

def shortWord (name : Char) (rest : List Char) : Word :=
  match name with
  | 'c' => .parameter .config (shortValue rest)
  | 'r' => .parameter .replay (shortValue rest)
  | 'o' => .parameter .output (shortValue rest)
  | 'h' => .help
  | _ => .stranger

def afterEquals (s : List Char) : Option String :=
  match s.dropWhile (· ≠ '=') with
  | [] => none
  | _ :: r => some (String.ofList r)

def wordOf (arg : String) : Word :=
  match arg.toList with
  | ['-', '-'] => .terminator
  | '-' :: '-' :: r => longWord (String.ofList (r.takeWhile (· ≠ '='))) (afterEquals r)
  | '-' :: c :: r => shortWord c r
  | _ => .stranger

def isDashed (arg : String) : Bool :=
  match arg.toList with
  | '-' :: _ :: _ => true
  | _ => false

namespace Arguments

/-- Sets a switch, once. -/
def turnOn (a : Arguments) : Switch → Option Arguments
  | .once => if a.once then none else some { a with once := true }
  | .printQuery => if a.printQuery then none else some { a with printQuery := true }
  | .logJson => if a.logJson then none else some { a with logJson := true }

/-- A path that is given once and is not empty. -/
def newPath (old : Option WrittenPath) (value : String) : Option WrittenPath :=
  if old.isSome ∨ value.isEmpty then none else some ⟨value⟩

/-- Sets a parameter, once. -/
def give (a : Arguments) (p : Parameter) (value : String) : Option Arguments :=
  match p with
  | .config => (newPath a.config value).map fun path => { a with config := some path }
  | .replay => (newPath a.replay value).map fun path => { a with replay := some path }
  | .output => (newPath a.output value).map fun path => { a with output := some path }
  | .connect => if a.connect.isSome then none else some { a with connect := some value }

end Arguments

inductive Request where
  | help
  | run (a : Arguments)
deriving DecidableEq, Repr

/-- Ends the reading of arguments: payloads go to one place only. -/
def Arguments.finish (a : Arguments) : Option Request :=
  if a.output.isSome ∧ a.connect.isSome then none else some (.run a)

def Arguments.readAfter (a : Arguments) : List String → Option Request
  | [] => a.finish
  | arg :: rest =>
    match wordOf arg with
    | .help => some .help
    | .switch s =>
      match a.turnOn s with
      | some a => a.readAfter rest
      | none => none
    | .parameter p (some value) =>
      match a.give p value with
      | some a => a.readAfter rest
      | none => none
    | .parameter p none =>
      match rest with
      | [] => none
      | value :: rest =>
        if isDashed value then none
        else
          match a.give p value with
          | some a => a.readAfter rest
          | none => none
    | .terminator => if rest.isEmpty then a.finish else none
    | .stranger => none

def Request.ofArguments (args : List String) : Option Request :=
  Arguments.readAfter {} args

def helpText : String :=
  "Collect SQL Server deadlock graphs as redacted, size-bounded telemetry\n\n" ++
  "Usage: deadwatch [OPTIONS]\n\n" ++
  "Options:\n" ++
  "  -c, --config <CONFIG>    WrittenPath to a TOML config file\n" ++
  "  -r, --replay <REPLAY>    Replay deadlock events from a JSON capture\n" ++
  "  -o, --output <OUTPUT>    Append payloads to this file as JSON lines (overrides config)\n" ++
  "      --connect <CONNECT>  Send payloads to a TCP endpoint (host:port, overrides config)\n" ++
  "      --once               Run a single collection cycle and exit\n" ++
  "      --print-query        Print the ring buffer query for the configured session and exit\n" ++
  "      --log-json           Emit logs as JSON lines\n" ++
  "  -h, --help               Print help\n"

def usageText : String :=
  "error: the arguments do not fit\n\nUsage: deadwatch [OPTIONS]\n\n" ++
  "For more information, try '--help'.\n"

end DeadlockCapture.CommandLine
