import DeadlockCapture.Json.Decoder
import DeadlockCapture.Sql.Redaction

/-!
The JSON form of the redaction options. An option that is left out has its default.
-/

namespace DeadlockCapture.Sql.RedactionOptions

open DeadlockCapture.Json

structure Draft where
  replaceDigits : Option Bool := none
  collapseLists : Option Bool := none
  keepNull : Option Bool := none
  keepBoolean : Option Bool := none
  extractMetadata : Option Bool := none

def fields : List (RecordField Draft) :=
  [.optional "replace_digits" Draft.replaceDigits
     (fun d v => { d with replaceDigits := some v }) Decoder.bool,
   .optional "collapse_lists" Draft.collapseLists
     (fun d v => { d with collapseLists := some v }) Decoder.bool,
   .optional "keep_null" Draft.keepNull (fun d v => { d with keepNull := some v }) Decoder.bool,
   .optional "keep_boolean" Draft.keepBoolean
     (fun d v => { d with keepBoolean := some v }) Decoder.bool,
   .optional "extract_metadata" Draft.extractMetadata
     (fun d v => { d with extractMetadata := some v }) Decoder.bool]

def ofDraft (d : Draft) : RedactionOptions :=
  let default : RedactionOptions := {}
  { replaceDigits := d.replaceDigits.getD default.replaceDigits
    collapseLists := d.collapseLists.getD default.collapseLists
    keepNull := d.keepNull.getD default.keepNull
    keepBoolean := d.keepBoolean.getD default.keepBoolean
    extractMetadata := d.extractMetadata.getD default.extractMetadata }

def decoder : Decoder RedactionOptions :=
  Decoder.record fields {} fun d => some (ofDraft d)

end DeadlockCapture.Sql.RedactionOptions
