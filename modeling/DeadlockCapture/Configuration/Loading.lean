import DeadlockCapture.Configuration.Environment
import DeadlockCapture.Configuration.Shape
import DeadlockCapture.Configuration.Wire
import DeadlockCapture.Toml.Document

/-!
Loading the settings: those of a TOML file, and over them those of the environment.
-/

namespace DeadlockCapture.Configuration

open Storage (Files WrittenPath)

def shape : Shape :=
  .table
    [("instance", .text), ("host", .optionalText), ("enabled", .bool),
     ("collection_interval", .text), ("max_payload_bytes", .natural), ("max_rows", .natural),
     ("query_timeout", .text), ("max_lookback", .text), ("redact_xml", .bool),
     ("session_name", .text), ("tags", .texts),
     ("obfuscation", .table
       [("replace_digits", .bool), ("collapse_lists", .bool), ("keep_null", .bool),
        ("keep_boolean", .bool), ("extract_metadata", .bool)]),
     ("checkpoint_path", .optionalText),
     ("output", .table [("file", .optionalText), ("tcp", .optionalText)])]

def ofSettings (s : Setting) : Except Fault Configuration :=
  match (s.reading? shape).map decoder with
  | some (.ok c) => .ok c
  | _ => .error .misfit

def gather (document : List (String × Setting)) (environment : List (String × String)) : Setting :=
  ((Setting.table []).putAll document).putAll (settingsAmong environment)

/-- The configuration of a TOML text and the environment, with its spans. Without a text only the
environment counts. -/
def load (text : Option String) (environment : List (String × String)) :
    Except Fault (Configuration × Timing) :=
  match text.elim (some []) Toml.document? with
  | none => .error .unread
  | some document =>
    match ofSettings (gather document environment) with
    | .error f => .error f
    | .ok c =>
      match c.check with
      | .error f => .error f
      | .ok timing => .ok (c, timing)

/-- The extension of the files that settings are read from. -/
def fileExtension : String :=
  "toml"

/-- A text without the byte order mark in front. -/
def withoutMark (text : String) : String :=
  match text.toList with
  | '\ufeff' :: r => String.ofList r
  | _ => text

/-- The text of the file that a path names, with or without the extension. -/
def fileText? (files : Files) (path : WrittenPath) : Option String :=
  match files.read path with
  | .ok text => if path.extension? = some fileExtension then some (withoutMark text) else none
  | .error _ => ((files.read (path.addExtension fileExtension)).toOption).map withoutMark

/-- The configuration of the file at a path, if one is given, and the environment. -/
def loadFrom (files : Files) (path : Option WrittenPath) (environment : List (String × String)) :
    Except Fault (Configuration × Timing) :=
  match path with
  | none => load none environment
  | some path =>
    match fileText? files path with
    | none => .error .unread
    | some text => load (some text) environment

end DeadlockCapture.Configuration
