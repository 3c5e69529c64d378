import LazyFields.Config.Document
import LazyFields.Proofs.Toml.WrittenTable

/-!
# Written configurations

The document of a configuration describes three tables, whose entries are the options that are set
and the lists.  The options that are read from these entries are those that were written.
-/
namespace LazyFields
open Toml

section Entries
variable {α : Type} {key k : Text} {value : α → Value} {o : Option α}

@[simp] theorem lookup_optionEntry :
    (optionEntry key value o).lookup k = if k = key then o.map value else none := by
  cases o with
  | none => simp [optionEntry]
  | some a =>
    by_cases h : k = key
    · simp [optionEntry, h]
    · simp [optionEntry, List.lookup_cons, h, beq_eq_false_iff_ne.2 h]

theorem keys_optionEntry (key : Text) (value : α → Value) (o : Option α) :
    List.Sublist ((optionEntry key value o).map Prod.fst) [key] := by
  cases o with
  | none => exact List.nil_sublist _
  | some a => exact List.Sublist.refl _

def listValue (ts : List Text) : Value := .array (ts.map .string)

def sizeValue (n : UInt64) : Value := .integer n.toNat

/-- A size, if there is one, is an integer of 64 bits. -/
def SizeFits (size : Option UInt64) : Prop :=
  ∀ n, size = some n → (n.toNat : Int) ≤ Int64.maxValue.toInt

def SchemaConfig.entries (c : SchemaConfig) : Entries :=
  optionEntry "path".toList .string c.path

def ScanConfig.entries (c : ScanConfig) : Entries :=
  [("extensions".toList, listValue c.extensions)] ++
  optionEntry "namespace".toList .string c.qualifier ++
  optionEntry "respect_ignore_files".toList .boolean c.respectIgnoreFiles ++
  [("extra_ignore".toList, listValue c.extraIgnore)] ++
  optionEntry "max_file_size".toList sizeValue c.maxFileSize ++
  optionEntry "follow_symlinks".toList .boolean c.followLinks

def NamingConfig.entries (c : NamingConfig) : Entries :=
  optionEntry "message_suffix".toList .string c.messageSuffix ++
  optionEntry "response_suffix".toList .string c.responseSuffix ++
  [("request_verb_prefixes".toList, listValue c.requestVerbs)]

theorem SchemaConfig.keys_sublist (c : SchemaConfig) :
    List.Sublist (c.entries.map Prod.fst) Config.schemaKeys :=
  keys_optionEntry ..

theorem ScanConfig.keys_sublist (c : ScanConfig) :
    List.Sublist (c.entries.map Prod.fst) Config.scanKeys := by
  simp only [ScanConfig.entries, List.map_append]
  exact (List.Sublist.refl ["extensions".toList]).append (keys_optionEntry ..)
    |>.append (keys_optionEntry ..)
    |>.append (List.Sublist.refl ["extra_ignore".toList])
    |>.append (keys_optionEntry ..)
    |>.append (keys_optionEntry ..)

theorem NamingConfig.keys_sublist (c : NamingConfig) :
    List.Sublist (c.entries.map Prod.fst) Config.namingKeys := by
  simp only [NamingConfig.entries, List.map_append]
  exact (keys_optionEntry ..).append (keys_optionEntry ..)
    |>.append (List.Sublist.refl ["request_verb_prefixes".toList])

end Entries

namespace Config

def tables (c : Config) : List (Text × Entries) :=
  [("schema".toList, c.schema.entries), ("scan".toList, c.scan.entries),
   ("naming".toList, c.naming.entries)]

theorem names_nodup (c : Config) : (c.tables.map Prod.fst).Nodup := by
  have names : ["schema".toList, "scan".toList, "naming".toList].Nodup := by decide
  exact names

theorem keys_nodup (c : Config) : ∀ t ∈ c.tables, (t.2.map Prod.fst).Nodup := by
  have schema : schemaKeys.Nodup := by decide
  have scan : scanKeys.Nodup := by decide
  have naming : namingKeys.Nodup := by decide
  simp only [tables, List.forall_mem_cons, List.not_mem_nil, false_implies, implies_true, and_true]
  exact ⟨c.schema.keys_sublist.nodup schema, c.scan.keys_sublist.nodup scan,
    c.naming.keys_sublist.nodup naming⟩

section Lines

theorem yields_strings (key : Text) (bare : IsBare key) (o : Option Text) :
    Yields (writeOption key writeString o) ((optionEntry key .string o).map assignment) :=
  yields_writeOption bare fun t _ => readsAs_writeString t

theorem yields_booleans (key : Text) (bare : IsBare key) (o : Option Bool) :
    Yields (writeOption key writeBool o) ((optionEntry key .boolean o).map assignment) :=
  yields_writeOption bare fun b _ => readsAs_scalar (writesScalar_writeBool b)

theorem yields_list (key : Text) (bare : IsBare key) (ts : List Text) :
    Yields (writeEntry key (writeStrings ts)) ([(key, listValue ts)].map assignment) :=
  yields_writeEntry bare (readsAs_writeStrings ts)

theorem yields_size (key : Text) (bare : IsBare key) {o : Option UInt64} (fits : SizeFits o) :
    Yields (writeOption key (fun n => Text.ofNat n.toNat) o)
      ((optionEntry key sizeValue o).map assignment) :=
  yields_writeOption bare fun n hn => readsAs_scalar (writesScalar_ofNat (fits n hn))

theorem yields_document (c : Config) (fits : SizeFits c.scan.maxFileSize) :
    Yields c.document (c.tables.flatMap tableStatements) := by
  have schema : Yields "[schema]\n".toList [.header [] "schema".toList] :=
    yields_headerLine rfl (by decide)
  have scan : Yields "\n[scan]\n".toList [.header [] "scan".toList] :=
    yields_nextHeader rfl (by decide)
  have naming : Yields "\n[naming]\n".toList [.header [] "naming".toList] :=
    yields_nextHeader rfl (by decide)
  -- Every line yields its statement, and the lines stand in the order of the options.
  have all := schema
    |>.append (yields_strings "path".toList (by decide) c.schema.path)
    |>.append scan
    |>.append (yields_list "extensions".toList (by decide) c.scan.extensions)
    |>.append (yields_strings "namespace".toList (by decide) c.scan.qualifier)
    |>.append (yields_booleans "respect_ignore_files".toList (by decide) c.scan.respectIgnoreFiles)
    |>.append (yields_list "extra_ignore".toList (by decide) c.scan.extraIgnore)
    |>.append (yields_size "max_file_size".toList (by decide) fits)
    |>.append (yields_booleans "follow_symlinks".toList (by decide) c.scan.followLinks)
    |>.append naming
    |>.append (yields_strings "message_suffix".toList (by decide) c.naming.messageSuffix)
    |>.append (yields_strings "response_suffix".toList (by decide) c.naming.responseSuffix)
    |>.append (yields_list "request_verb_prefixes".toList (by decide) c.naming.requestVerbs)
  refine cast (congrArg (Yields c.document) ?_) all
  simp only [tables, tableStatements, SchemaConfig.entries, ScanConfig.entries,
    NamingConfig.entries, List.flatMap_cons, List.flatMap_nil, List.map_append, List.map_cons,
    List.map_nil, List.append_assoc, List.cons_append, List.nil_append, List.append_nil]

end Lines

section Options

theorem texts?_listValue (ts : List Text) : texts? (listValue ts) = some ts := by
  induction ts with
  | nil => rfl
  | cons t ts ih =>
    simp only [texts?, listValue, List.map_cons, List.mapM_cons] at ih ⊢
    simp [text?, ih]

theorem size?_sizeValue (n : UInt64) : size? (sizeValue n) = some n := by
  simp [size?, sizeValue]

theorem option?_of_lookup {α : Type} {read : Value → Option α} {value : α → Value}
    (back : ∀ a, read (value a) = some a) {o : Option α} {key : Text} {es : Entries}
    (h : es.lookup key = o.map value) : option? read key es = some o := by
  cases o with
  | none => simp [option?, h]
  | some a => simp [option?, h, back]

theorem list?_of_lookup {ts : List Text} {key : Text} {es : Entries}
    (h : es.lookup key = some (listValue ts)) : list? texts? key es = some ts := by
  simp [list?, h, texts?_listValue]

theorem text?_string (t : Text) : text? (.string t) = some t := rfl

theorem bool?_boolean (b : Bool) : bool? (.boolean b) = some b := rfl

theorem readSchema?_entries (c : SchemaConfig) : readSchema? c.entries = some c := by
  have path : option? text? "path".toList c.entries = some c.path :=
    option?_of_lookup text?_string (by simp [SchemaConfig.entries])
  simp only [readSchema?, path]
  rfl

theorem readScan?_entries (c : ScanConfig) : readScan? c.entries = some c := by
  have extensions : list? texts? "extensions".toList c.entries = some c.extensions :=
    list?_of_lookup (by simp [ScanConfig.entries])
  have qualifier : option? text? "namespace".toList c.entries = some c.qualifier :=
    option?_of_lookup text?_string
      (by simp [ScanConfig.entries, List.lookup_append, List.lookup_cons])
  have respect : option? bool? "respect_ignore_files".toList c.entries =
      some c.respectIgnoreFiles :=
    option?_of_lookup bool?_boolean
      (by simp [ScanConfig.entries, List.lookup_append, List.lookup_cons])
  have extra : list? texts? "extra_ignore".toList c.entries = some c.extraIgnore :=
    list?_of_lookup (by simp [ScanConfig.entries, List.lookup_append, List.lookup_cons])
  have size : option? size? "max_file_size".toList c.entries = some c.maxFileSize :=
    option?_of_lookup size?_sizeValue
      (by simp [ScanConfig.entries, List.lookup_append, List.lookup_cons])
  have follow : option? bool? "follow_symlinks".toList c.entries = some c.followLinks :=
    option?_of_lookup bool?_boolean
      (by simp [ScanConfig.entries, List.lookup_append, List.lookup_cons])
  simp only [readScan?, extensions, qualifier, respect, extra, size, follow]
  rfl

theorem readNaming?_entries (c : NamingConfig) : readNaming? c.entries = some c := by
  have message : option? text? "message_suffix".toList c.entries = some c.messageSuffix :=
    option?_of_lookup text?_string
      (by simp [NamingConfig.entries, List.lookup_append, List.lookup_cons])
  have response : option? text? "response_suffix".toList c.entries = some c.responseSuffix :=
    option?_of_lookup text?_string
      (by simp [NamingConfig.entries, List.lookup_append, List.lookup_cons])
  have verbs : list? texts? "request_verb_prefixes".toList c.entries = some c.requestVerbs :=
    list?_of_lookup (by simp [NamingConfig.entries, List.lookup_append])
  simp only [readNaming?, message, response, verbs]
  rfl

end Options

theorem ofToml?_document (c : Config) (fits : SizeFits c.scan.maxFileSize) :
    ofToml? c.document = some c := by
  have unmarked : c.document.head? ≠ some '\uFEFF' := by
    have first : c.document.head? = some '[' := rfl
    rw [first]
    decide
  have described : Toml.read? c.document = some (c.tables.map tableEntry) :=
    read?_of_yields (yields_document c fits) (names_nodup c) (keys_nodup c) unmarked
  have schema : readSection? {} readSchema? schemaKeys "schema".toList (c.tables.map tableEntry) =
      some c.schema := readSchema?_entries c.schema
  have scan : readSection? {} readScan? scanKeys "scan".toList (c.tables.map tableEntry) =
      some c.scan := readScan?_entries c.scan
  have naming : readSection? {} readNaming? namingKeys "naming".toList (c.tables.map tableEntry) =
      some c.naming := readNaming?_entries c.naming
  simp only [ofToml?, described, schema, scan, naming, bind, pure, Option.bind_some]

end Config
end LazyFields
