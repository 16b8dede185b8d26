import DeadlockCapture.Configuration.Basic
import DeadlockCapture.Sql.OptionsWire

/-!
The JSON form of the settings. A setting that is left out has its default.
-/

namespace DeadlockCapture

open Json
open Sql (RedactionOptions)
open Storage (WrittenPath)

def Configuration.optionalPath : Decoder (Option WrittenPath) := fun r =>
  ((Decoder.nullable Decoder.text) r).map fun text => text.map WrittenPath.mk

namespace Destination

/-- A destination that is still being read. -/
structure Draft where
  file : Option (Option WrittenPath) := none
  tcp : Option (Option String) := none

def fields : List (RecordField Draft) :=
  [.optional "file" Draft.file (fun d v => { d with file := some v }) Configuration.optionalPath,
   .optional "tcp" Draft.tcp (fun d v => { d with tcp := some v }) (Decoder.nullable Decoder.text)]

def decoder : Decoder Destination :=
  Decoder.record fields {} fun d => some { file := d.file.getD none, tcp := d.tcp.getD none }

end Destination

namespace Configuration

/-- Settings that are still being read. -/
structure Draft where
  instanceName : Option String := none
  host : Option (Option String) := none
  enabled : Option Bool := none
  collectionInterval : Option String := none
  maxPayloadBytes : Option UInt64 := none
  maxRows : Option UInt64 := none
  queryTimeout : Option String := none
  maxLookback : Option String := none
  redactXml : Option Bool := none
  sessionName : Option String := none
  tags : Option (List String) := none
  redaction : Option RedactionOptions := none
  checkpointPath : Option (Option WrittenPath) := none
  output : Option Destination := none

def fields : List (RecordField Draft) :=
  [.optional "instance" Draft.instanceName
     (fun d v => { d with instanceName := some v }) Decoder.text,
   .optional "host" Draft.host
     (fun d v => { d with host := some v }) (Decoder.nullable Decoder.text),
   .optional "enabled" Draft.enabled (fun d v => { d with enabled := some v }) Decoder.bool,
   .optional "collection_interval" Draft.collectionInterval
     (fun d v => { d with collectionInterval := some v }) Decoder.text,
   .optional "max_payload_bytes" Draft.maxPayloadBytes
     (fun d v => { d with maxPayloadBytes := some v }) Decoder.uint64,
   .optional "max_rows" Draft.maxRows (fun d v => { d with maxRows := some v }) Decoder.uint64,
   .optional "query_timeout" Draft.queryTimeout
     (fun d v => { d with queryTimeout := some v }) Decoder.text,
   .optional "max_lookback" Draft.maxLookback
     (fun d v => { d with maxLookback := some v }) Decoder.text,
   .optional "redact_xml" Draft.redactXml (fun d v => { d with redactXml := some v }) Decoder.bool,
   .optional "session_name" Draft.sessionName
     (fun d v => { d with sessionName := some v }) Decoder.text,
   .optional "tags" Draft.tags (fun d v => { d with tags := some v }) (Decoder.list Decoder.text),
   .optional "obfuscation" Draft.redaction
     (fun d v => { d with redaction := some v }) RedactionOptions.decoder,
   .optional "checkpoint_path" Draft.checkpointPath
     (fun d v => { d with checkpointPath := some v }) optionalPath,
   .optional "output" Draft.output (fun d v => { d with output := some v }) Destination.decoder]

def ofDraft (d : Draft) : Configuration :=
  let default : Configuration := {}
  { instanceName := d.instanceName.getD default.instanceName
    host := d.host.getD default.host
    enabled := d.enabled.getD default.enabled
    collectionInterval := d.collectionInterval.getD default.collectionInterval
    maxPayloadBytes := (d.maxPayloadBytes.map UInt64.toNat).getD default.maxPayloadBytes
    maxRows := (d.maxRows.map UInt64.toNat).getD default.maxRows
    queryTimeout := d.queryTimeout.getD default.queryTimeout
    maxLookback := d.maxLookback.getD default.maxLookback
    redactXml := d.redactXml.getD default.redactXml
    sessionName := d.sessionName.getD default.sessionName
    tags := d.tags.getD default.tags
    redaction := d.redaction.getD default.redaction
    checkpointPath := d.checkpointPath.getD default.checkpointPath
    output := d.output.getD default.output }

def decoder : Decoder Configuration :=
  Decoder.record fields {} fun d => some (ofDraft d)

end Configuration

end DeadlockCapture
