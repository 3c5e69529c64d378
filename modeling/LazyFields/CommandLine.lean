import LazyFields.Run
import LazyFields.Text.Visible

/-!
# The command line

The arguments of the command, its report on a run, and the status with which it ends.
-/
namespace LazyFields.CommandLine

inductive UsageError where
  | unexpected (argument : Text)
  | repeated (flag : Text)
  | valued (value flag : Text)
deriving DecidableEq, Repr

/-- The message shows what is visible of the arguments. -/
def UsageError.message : UsageError → Text
  | unexpected argument =>
    "error: unexpected argument '".toList ++ argument.visible ++ "' found".toList
  | repeated flag =>
    "error: the argument '".toList ++ flag ++ "' cannot be used multiple times".toList
  | valued value flag =>
    "error: unexpected value '".toList ++ value.visible ++ "' for '".toList ++ flag ++
      "' found; no more were expected".toList

structure Flags where
  dryRun : Bool := false
  verbose : Bool := false
deriving DecidableEq, Repr

inductive Request where
  | run (flags : Flags)
  | help
deriving DecidableEq, Repr

inductive Flag where
  | dryRun
  | verbose
  | help
deriving DecidableEq, Repr

namespace Flag

def long? (name : Text) : Option Flag :=
  if name = "dry-run".toList then some dryRun
  else if name = "verbose".toList then some verbose
  else if name = "help".toList then some help
  else none

def short? (c : Char) : Option Flag :=
  if c = 'v' then some verbose else if c = 'h' then some help else none

def name : Flag → Text
  | dryRun => "--dry-run".toList
  | verbose => "--verbose".toList
  | help => "--help".toList

end Flag

inductive Stop where
  | help
  | error (e : UsageError)

def setFlag (flags : Flags) : Flag → Except Stop Flags
  | .help => .error .help
  | .dryRun =>
    if flags.dryRun then .error (.error (.repeated Flag.dryRun.name))
    else .ok { flags with dryRun := true }
  | .verbose =>
    if flags.verbose then .error (.error (.repeated Flag.verbose.name))
    else .ok { flags with verbose := true }

/-- Reads an argument: a long flag, a row of short ones, or something that is not expected. -/
def readArgument (flags : Flags) (argument : Text) : Except Stop Flags :=
  match argument with
  | '-' :: '-' :: rest =>
    let name := rest.takeWhile (· != '=')
    match Flag.long? name, rest.dropWhile (· != '=') with
    | none, _ => .error (.error (.unexpected ('-' :: '-' :: name)))
    | some flag, [] => setFlag flags flag
    | some flag, _ :: value => .error (.error (.valued value flag.name))
  | '-' :: c :: row =>
    (c :: row).foldlM
      (fun flags c =>
        match Flag.short? c with
        | some flag => setFlag flags flag
        | none => .error (.error (.unexpected ['-', c])))
      flags
  | _ => .error (.error (.unexpected argument))

/-- Reads the arguments from left to right; behind two dashes none is expected. -/
def readArguments (flags : Flags) : List Text → Except Stop Flags
  | [] => .ok flags
  | ['-', '-'] :: rest =>
    match rest with
    | [] => .ok flags
    | argument :: _ => .error (.error (.unexpected argument))
  | argument :: rest => do readArguments (← readArgument flags argument) rest

def parse (arguments : List Text) : Except UsageError Request :=
  match readArguments {} arguments with
  | .ok flags => .ok (.run flags)
  | .error .help => .ok .help
  | .error (.error e) => .error e

def helpText : Text :=
  ("Add [lazy = true] to schema fields whose accessors are never used\n\n" ++
   "Usage: lazyproto [OPTIONS]\n\nOptions:\n" ++
   "      --dry-run  Report what would change without writing the schema file\n" ++
   "  -v, --verbose  Print scan counts and one line per field decision\n" ++
   "  -h, --help     Print help\n").toList

def eventLines : Event → List Text
  | .started root schemaPath dryRun =>
    ["Project root: ".toList ++ root, "Proto file: ".toList ++ schemaPath,
     "Dry run: ".toList ++ (if dryRun then "True" else "False").toList, []]
  | .scanned files skipped accessors types =>
    ["Scanned ".toList ++ Text.ofNat files ++ " files (".toList ++ Text.ofNat skipped ++
       " skipped)".toList,
     "Found ".toList ++ Text.ofNat accessors ++
       " unique getter methods used in Go code".toList,
     "Found ".toList ++ Text.ofNat types ++ " proto types used in Go code".toList]
  | .enumsRead n => ["Found ".toList ++ Text.ofNat n ++ " enum definitions".toList]
  | .typesFiltered n =>
    ["After filtering enums: ".toList ++ Text.ofNat n ++ " message types".toList]
  | .messagesRead n =>
    ["Parsed ".toList ++ Text.ofNat n ++ " message definitions from proto file".toList, []]
  | .decided d =>
    ["  ".toList ++ d.message ++ '.' :: d.field ++ " (".toList ++ d.type ++ "): ".toList ++
       (if d.used then "USED" else "LAZY").toList]
  | .selected n => [[], "Total lazy candidates: ".toList ++ Text.ofNat n, []]

structure Output where
  status : Nat
  out : Text
  err : Text
  tree : Tree

def printed (lines : List Text) : Text := lines.flatMap (· ++ ['\n'])

def setIn (t : Text) : Text :=
  let gap := "    ".toList
  gap ++ t.flatMap fun c => if c = '\n' then '\n' :: gap else [c]

def errorText (e : RunError) : Text :=
  "Error: ".toList ++ Fault.message e ++
    match (if e.isSchemaMissing then none else e.cause?) with
    | none => ['\n']
    | some cause => "\n\nCaused by:\n".toList ++ setIn cause ++ ['\n']

def runHere (tree : Tree) (env : Environment) (flags : Flags) : Output :=
  let directory := '/' :: List.intercalate ['/'] tree.here
  match loadConfig tree directory env with
  | .error e => ⟨1, [], errorText (.config e), tree⟩
  | .ok config =>
    let result := run tree directory config flags.dryRun
    let log := if flags.verbose then result.events.flatMap eventLines else []
    match result.outcome with
    | .ok report => ⟨0, printed (log ++ [report.summary]), [], result.tree⟩
    | .error e => ⟨1, printed log, errorText e, result.tree⟩

def execute (tree : Tree) (env : Environment) (arguments : List Text) : Output :=
  match parse arguments with
  | .ok (.run flags) => runHere tree env flags
  | .ok .help => ⟨0, helpText, [], tree⟩
  | .error e => ⟨2, [], e.message ++ ['\n'], tree⟩

end LazyFields.CommandLine
