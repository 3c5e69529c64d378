import LazyFields.Annotation
import LazyFields.Config.Layers
import LazyFields.Event
import LazyFields.Run.Error
import LazyFields.Scan
import LazyFields.Scan.Namespace

/-!
# Runs

A run scans the sources below a root, reads the schema, selects candidates and marks them in the
schema file.  It is a function from a tree of files to its events, its outcome, and the tree
afterwards.
-/
namespace LazyFields
open Schema

/-- The outcome of a run that comes to its end.  Without candidates nothing is annotated, and there
is no count of changes. -/
structure Report where
  dryRun : Bool
  stats : ScanStats
  accessors : Nat
  types : Nat
  enums : Nat
  messages : Nat
  candidates : Candidates
  changes : Option Nat
deriving DecidableEq

def summary (dryRun : Bool) (changes : Option Nat) : Text :=
  match changes with
  | none => "No lazy candidates found".toList
  | some n =>
    (if dryRun then "Would add ".toList else "Added ".toList) ++ lazyMarker ++ " to ".toList ++
      Text.ofNat n ++ " fields".toList

def Report.summary (r : Report) : Text := LazyFields.summary r.dryRun r.changes

def readSchema (tree : Tree) (path : Text) (rules : NamingRules) : Except SchemaError Model :=
  if tree.has path then
    match tree.readText path with
    | .ok text => .ok (.read text rules)
    | .error cause => .error (.read path cause)
  else .error (.missing path)

/-- Marks the candidates in the schema at a path: the number of changes and the tree afterwards.
A dry run, or one without changes, writes nothing. -/
def annotateFile (tree : Tree) (path : Text) (candidates : Candidates) (dryRun : Bool) :
    Except SchemaError (Nat × Tree) :=
  match tree.readText path with
  | .error cause => .error (.read path cause)
  | .ok text =>
    let a := annotate text candidates
    .ok (a.changes,
      if dryRun || a.changes == 0 then tree else tree.write path (Text.Utf8.encode a.text))

structure RunResult where
  events : List Event
  outcome : Except RunError Report
  tree : Tree

def Scan.event (scan : Scan) : Event :=
  .scanned scan.stats.scanned scan.stats.skipped scan.usage.accessors.size scan.usage.types.size

def selectionEvents (usage : Usage) (model : Model) : List Event :=
  let ds := decisions usage.types model usage.accessors
  [.enumsRead model.enums.size, .typesFiltered (messageTypes usage.types model).size,
    .messagesRead model.messages.size] ++ ds.map .decided ++
    [.selected (Candidates.ofDecisions ds).total]

def Report.of (dryRun : Bool) (scan : Scan) (model : Model) (changes : Option Nat) : Report where
  dryRun := dryRun
  stats := scan.stats
  accessors := scan.usage.accessors.size
  types := scan.usage.types.size
  enums := model.enums.size
  messages := model.messages.size
  candidates := select scan.usage.types model scan.usage.accessors
  changes := changes

def markSelected (tree : Tree) (path : Text) (dryRun : Bool) (scan : Scan) (model : Model) :
    Except RunError Report × Tree :=
  let candidates := select scan.usage.types model scan.usage.accessors
  if candidates.isEmpty then (.ok (.of dryRun scan model none), tree)
  else
    match annotateFile tree path candidates dryRun with
    | .error e => (.error (.schema e), tree)
    | .ok (changes, tree) => (.ok (.of dryRun scan model (some changes)), tree)

/-- Runs on the sources below a root, with an engine for patterns that may refuse a namespace. -/
def runWith (refusal? : Text → Option Text) (tree : Tree) (root : Text) (config : Config)
    (dryRun : Bool) : RunResult :=
  let path := config.schema.locate root
  if tree.has path then
    let started : Event := .started root path dryRun
    match Scanner.new refusal? config.scan config.naming.rules with
    | .error e => ⟨[started], .error (.scan e), tree⟩
    | .ok scanner =>
      let scan := scanner.scan tree root
      match readSchema tree path config.naming.rules with
      | .error e => ⟨[started, scan.event], .error (.schema e), tree⟩
      | .ok model =>
        let (outcome, after) := markSelected tree path dryRun scan model
        ⟨started :: scan.event :: selectionEvents scan.usage model, outcome, after⟩
  else ⟨[], .error (.schema (.missing path)), tree⟩

def run (tree : Tree) (root : Text) (config : Config) (dryRun : Bool) : RunResult :=
  runWith qualifierRefusal? tree root config dryRun

def projectFile (tree : Tree) (root : Text) : Text × ProjectFile :=
  let path := Path.join root Config.projectFile
  (path,
    if tree.has path then
      match tree.readText path with
      | .ok t => .document t
      | .error _ => .unreadable
    else .absent)

def loadConfig (tree : Tree) (root : Text) (env : Environment) : Except ConfigError Config :=
  let (path, file) := projectFile tree root
  Config.load path file env

end LazyFields
