import DeadlockCapture.Report.Graph

/-!
The JSON form of a deadlock graph. Empty texts and lists that need not be there are left out.
-/

namespace DeadlockCapture.Report

open DeadlockCapture.Json

namespace Frame

def toJson (f : Frame) : Json :=
  .record <|
    [("procname", .text f.procedure), ("line", .whole f.line.toNat)] ++
    unlessEmpty "sql_handle" f.handle ++ unlessEmpty "text" f.text

/-- A frame whose fields are still being read. -/
structure Draft where
  procedure : Option String := none
  line : Option UInt32 := none
  handle : Option String := none
  text : Option String := none

def fields : List (RecordField Draft) :=
  [.required "procname" Draft.procedure (fun d v => { d with procedure := some v }) Decoder.text,
   .required "line" Draft.line (fun d v => { d with line := some v }) Decoder.uint32,
   .optional "sql_handle" Draft.handle (fun d v => { d with handle := some v }) Decoder.text,
   .optional "text" Draft.text (fun d v => { d with text := some v }) Decoder.text]

def Draft.finish (d : Draft) : Option Frame := do
  some ⟨← d.procedure, ← d.line, d.handle.getD "", d.text.getD ""⟩

def decoder : Decoder Frame :=
  Decoder.record fields {} Draft.finish

end Frame

namespace Participant

def toJson (p : Participant) : Json :=
  .record <|
    [("process_id", .text p.id), ("session_id", .whole p.session.toInt),
      ("wait_time_ms", .whole p.waitMillis.toNat), ("lock_mode", .text p.lockMode),
      ("isolation_level", .text p.isolation), ("input_buffer_text", .text p.inputBuffer)] ++
    unlessEmpty "wait_resource" p.waitResource ++
    [("database_id", .whole p.database.toNat)] ++
    unlessEmpty "transaction_name" p.transaction ++
    unlessNil "execution_frames" (p.frames.map Frame.toJson)

/-- A process whose fields are still being read. -/
structure Draft where
  id : Option String := none
  session : Option SessionId := none
  waitMillis : Option UInt64 := none
  lockMode : Option String := none
  isolation : Option String := none
  inputBuffer : Option String := none
  waitResource : Option String := none
  database : Option UInt32 := none
  transaction : Option String := none
  frames : Option (List Frame) := none

def fields : List (RecordField Draft) :=
  [.required "process_id" Draft.id (fun d v => { d with id := some v }) Decoder.text,
   .required "session_id" Draft.session (fun d v => { d with session := some v }) Decoder.int32,
   .required "wait_time_ms" Draft.waitMillis
     (fun d v => { d with waitMillis := some v }) Decoder.uint64,
   .required "lock_mode" Draft.lockMode (fun d v => { d with lockMode := some v }) Decoder.text,
   .required "isolation_level" Draft.isolation
     (fun d v => { d with isolation := some v }) Decoder.text,
   .required "input_buffer_text" Draft.inputBuffer
     (fun d v => { d with inputBuffer := some v }) Decoder.text,
   .optional "wait_resource" Draft.waitResource
     (fun d v => { d with waitResource := some v }) Decoder.text,
   .optional "database_id" Draft.database (fun d v => { d with database := some v }) Decoder.uint32,
   .optional "transaction_name" Draft.transaction
     (fun d v => { d with transaction := some v }) Decoder.text,
   .optional "execution_frames" Draft.frames
     (fun d v => { d with frames := some v }) (Decoder.list Frame.decoder)]

def Draft.finish (d : Draft) : Option Participant := do
  some
    { id := ← d.id
      session := ← d.session
      waitMillis := ← d.waitMillis
      lockMode := ← d.lockMode
      isolation := ← d.isolation
      inputBuffer := ← d.inputBuffer
      waitResource := d.waitResource.getD ""
      database := d.database.getD 0
      transaction := d.transaction.getD ""
      frames := d.frames.getD [] }

def decoder : Decoder Participant :=
  Decoder.record fields {} Draft.finish

end Participant

namespace Resource

def toJson (r : Resource) : Json :=
  .record <|
    [("resource_type", .text r.kind), ("object_name", .text r.object)] ++
    unlessEmpty "index_name" r.index ++
    [("database_id", .whole r.database.toNat)] ++
    unlessEmpty "mode" r.mode ++
    [("owner_session_ids", r.owners.toJson), ("waiter_session_ids", r.waiters.toJson)]

/-- A resource whose fields are still being read. -/
structure Draft where
  kind : Option String := none
  object : Option String := none
  index : Option String := none
  database : Option UInt32 := none
  mode : Option String := none
  owners : Option SessionSet := none
  waiters : Option SessionSet := none

def fields : List (RecordField Draft) :=
  [.required "resource_type" Draft.kind (fun d v => { d with kind := some v }) Decoder.text,
   .required "object_name" Draft.object (fun d v => { d with object := some v }) Decoder.text,
   .optional "index_name" Draft.index (fun d v => { d with index := some v }) Decoder.text,
   .optional "database_id" Draft.database (fun d v => { d with database := some v }) Decoder.uint32,
   .optional "mode" Draft.mode (fun d v => { d with mode := some v }) Decoder.text,
   .required "owner_session_ids" Draft.owners
     (fun d v => { d with owners := some v }) SessionSet.decoder,
   .required "waiter_session_ids" Draft.waiters
     (fun d v => { d with waiters := some v }) SessionSet.decoder]

def Draft.finish (d : Draft) : Option Resource := do
  some
    { kind := ← d.kind
      object := ← d.object
      index := d.index.getD ""
      database := d.database.getD 0
      mode := d.mode.getD ""
      owners := ← d.owners
      waiters := ← d.waiters }

def decoder : Decoder Resource :=
  Decoder.record fields {} Draft.finish

end Resource

namespace Graph

def toJson (g : Graph) : Json :=
  .record <|
    [("processes", .list (g.processes.map Participant.toJson)),
      ("resources", .list (g.resources.map Resource.toJson))] ++
    if g.victims.isEmpty then [] else [("victim_session_ids", g.victims.toJson)]

/-- A graph whose fields are still being read. -/
structure Draft where
  processes : Option (List Participant) := none
  resources : Option (List Resource) := none
  victims : Option SessionSet := none

def fields : List (RecordField Draft) :=
  [.required "processes" Draft.processes
     (fun d v => { d with processes := some v }) (Decoder.list Participant.decoder),
   .required "resources" Draft.resources
     (fun d v => { d with resources := some v }) (Decoder.list Resource.decoder),
   .optional "victim_session_ids" Draft.victims
     (fun d v => { d with victims := some v }) SessionSet.decoder]

def Draft.finish (d : Draft) : Option Graph := do
  some ⟨← d.processes, ← d.resources, d.victims.getD .empty⟩

def decoder : Decoder Graph :=
  Decoder.record fields {} Draft.finish

end Graph

end DeadlockCapture.Report
