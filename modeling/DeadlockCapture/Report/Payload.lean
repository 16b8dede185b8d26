import DeadlockCapture.Report.Row

/-!
The payload of one cycle: a batch of rows and where it comes from.
-/

namespace DeadlockCapture.Report

open DeadlockCapture.Json

structure Payload where
  host : String
  kind : String
  interval : Float
  /-- When the batch was put together, in milliseconds since 1970. -/
  stamp : UInt64
  tags : List String := []
  rows : List Row

namespace Payload

def deadlocks : String :=
  "deadlocks"

def ofRows (host : String) (interval : Float) (stamp : UInt64) (tags : List String)
    (rows : List Row) : Payload :=
  ⟨host, deadlocks, interval, stamp, tags, rows⟩

def toJson (p : Payload) : Json :=
  .record
    [("host", .text p.host), ("dbm_type", .text p.kind), ("collection_interval", .real p.interval),
      ("timestamp", .whole p.stamp.toNat), ("ddtags", .texts p.tags),
      ("sqlserver_deadlocks", .list (p.rows.map Row.toJson))]

/-- A payload whose fields are still being read. -/
structure Draft where
  host : Option String := none
  kind : Option String := none
  interval : Option Float := none
  stamp : Option UInt64 := none
  tags : Option (List String) := none
  rows : Option (List Row) := none

def fields : List (RecordField Draft) :=
  [.required "host" Draft.host (fun d v => { d with host := some v }) Decoder.text,
   .required "dbm_type" Draft.kind (fun d v => { d with kind := some v }) Decoder.text,
   .required "collection_interval" Draft.interval
     (fun d v => { d with interval := some v }) Decoder.float,
   .required "timestamp" Draft.stamp (fun d v => { d with stamp := some v }) Decoder.uint64,
   .optional "ddtags" Draft.tags (fun d v => { d with tags := some v }) (Decoder.list Decoder.text),
   .required "sqlserver_deadlocks" Draft.rows
     (fun d v => { d with rows := some v }) (Decoder.list Row.decoder)]

def Draft.finish (d : Draft) : Option Payload := do
  some ⟨← d.host, ← d.kind, ← d.interval, ← d.stamp, d.tags.getD [], ← d.rows⟩

def decoder : Decoder Payload :=
  Decoder.record fields {} Draft.finish

end Payload

end DeadlockCapture.Report
