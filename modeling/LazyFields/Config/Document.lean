import LazyFields.Config.Validation
import LazyFields.Toml.Document
import LazyFields.Toml.Writer

/-!
# Configurations as TOML documents

A configuration is written as three tables and read back from any document that gives its options
the right types.  Keys that are not options are passed over.  An array in the place of a table
gives the options of the table in their order.
-/
namespace LazyFields
open Toml

namespace Config

def schemaKeys : List Text := ["path".toList]

def scanKeys : List Text :=
  ["extensions", "namespace", "respect_ignore_files", "extra_ignore", "max_file_size",
   "follow_symlinks"].map String.toList

def namingKeys : List Text :=
  ["message_suffix", "response_suffix", "request_verb_prefixes"].map String.toList

def option? {α : Type} (read : Value → Option α) (key : Text) (es : Entries) :
    Option (Option α) :=
  match es.lookup key with
  | none => some none
  | some v => (read v).map some

def list? (read : Value → Option (List Text)) (key : Text) (es : Entries) : Option (List Text) :=
  match es.lookup key with
  | none => some []
  | some v => read v

def text? : Value → Option Text
  | .string t => some t
  | _ => none

def bool? : Value → Option Bool
  | .boolean b => some b
  | _ => none

def size? : Value → Option UInt64
  | .integer n => if 0 ≤ n then some (UInt64.ofNat n.toNat) else none
  | _ => none

def texts? : Value → Option (List Text)
  | .array items => items.mapM text?
  | _ => none

/-- The options that a value gives to a table.  A date counts as a table without options. -/
def section? (keys : List Text) : Value → Option Entries
  | .table _ es => some es
  | .array items => some (keys.zip items)
  | .tables items => some (keys.zip (items.map (.table .header)))
  | .date _ => some []
  | _ => none

def readSchema? (es : Entries) : Option SchemaConfig := do
  return ⟨← option? text? "path".toList es⟩

def readScan? (es : Entries) : Option ScanConfig := do
  return {
    extensions := ← list? texts? "extensions".toList es
    qualifier := ← option? text? "namespace".toList es
    respectIgnoreFiles := ← option? bool? "respect_ignore_files".toList es
    extraIgnore := ← list? texts? "extra_ignore".toList es
    maxFileSize := ← option? size? "max_file_size".toList es
    followLinks := ← option? bool? "follow_symlinks".toList es }

def readNaming? (es : Entries) : Option NamingConfig := do
  return {
    messageSuffix := ← option? text? "message_suffix".toList es
    responseSuffix := ← option? text? "response_suffix".toList es
    requestVerbs := ← list? texts? "request_verb_prefixes".toList es }

def readSection? {α : Type} (absent : α) (read : Entries → Option α) (keys : List Text)
    (name : Text) (es : Entries) : Option α :=
  match es.lookup name with
  | none => some absent
  | some v => (section? keys v).bind read

def ofToml? (document : Text) : Option Config := do
  let es ← Toml.read? document
  return {
    schema := ← readSection? {} readSchema? schemaKeys "schema".toList es
    scan := ← readSection? {} readScan? scanKeys "scan".toList es
    naming := ← readSection? {} readNaming? namingKeys "naming".toList es }

def parse (path document : Text) : Except ConfigError Config :=
  match ofToml? document with
  | some c => .ok c
  | none => .error (.malformed path "not a TOML document with options of the right types".toList)

/-- The document of a configuration whose size, if any, is an integer of TOML. -/
def document (c : Config) : Text :=
  "[schema]\n".toList ++
  writeOption "path".toList writeString c.schema.path ++
  "\n[scan]\n".toList ++
  writeEntry "extensions".toList (writeStrings c.scan.extensions) ++
  writeOption "namespace".toList writeString c.scan.qualifier ++
  writeOption "respect_ignore_files".toList writeBool c.scan.respectIgnoreFiles ++
  writeEntry "extra_ignore".toList (writeStrings c.scan.extraIgnore) ++
  writeOption "max_file_size".toList (fun n => Text.ofNat n.toNat) c.scan.maxFileSize ++
  writeOption "follow_symlinks".toList writeBool c.scan.followLinks ++
  "\n[naming]\n".toList ++
  writeOption "message_suffix".toList writeString c.naming.messageSuffix ++
  writeOption "response_suffix".toList writeString c.naming.responseSuffix ++
  writeEntry "request_verb_prefixes".toList (writeStrings c.naming.requestVerbs)

/-- Writes a configuration.  A size beyond the integers of TOML cannot be written. -/
def toToml (c : Config) : Except ConfigError Text :=
  if c.scan.maxFileSize.all (·.toNat ≤ Int64.maxValue.toInt) then .ok c.document
  else .error (.malformed "<serialization>".toList "the size is beyond the integers of TOML".toList)

end Config
end LazyFields
