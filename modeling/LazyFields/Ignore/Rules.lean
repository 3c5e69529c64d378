import LazyFields.Ignore.Pattern
import LazyFields.Text.Lines
import LazyFields.Tree.Resolve

/-!
# Ignore rules of directories

A directory may hold two ignore files, and a repository one more.  What they say about a path is
decided by kind first and by depth second: a file of the first kind goes before one of the second,
and among files of one kind the one in the deepest directory goes first.  The files of a
repository say nothing about paths outside every repository, nor beyond the repository that is
entered last.
-/
namespace LazyFields.Ignore
open Text

/-- The patterns of an ignore file, what is wrong with its lines, and why its patterns are refused
as a whole, if they are; the flag marks a line that is no text. -/
structure IgnoreFile where
  patterns : List Pattern := []
  faults : List (Bool × Text) := []
  refusal? : Option LimitError := none

namespace IgnoreFile

def readLines (path : Text) (f : IgnoreFile) : List (Option Text × Nat) → IgnoreFile
  | [] => f
  | (line?, number) :: rest =>
    let place : Text := path ++ ": line ".toList ++ ofNat number ++ ": ".toList
    match line? with
    | none => { f with faults := f.faults ++ [(true, place ++ SystemError.invalidUtf8.message)] }
    | some line =>
      let line := if number = 1 then line.dropWhile (· == '\uFEFF') else line
      match Pattern.read true line with
      | .ok none => readLines path f rest
      | .ok (some p) => readLines path { f with patterns := f.patterns ++ [p] } rest
      | .error e =>
        readLines path { f with faults := f.faults ++ [(false, place ++ e.message)] } rest

def withinLimits (f : IgnoreFile) : IgnoreFile :=
  match Pattern.checkLimits f.patterns with
  | .ok () => f
  | .error e => { f with patterns := [], refusal? := some e }

/-- The ignore file at a path.  A file that is not there or cannot be read has no patterns. -/
def load (tree : Tree) (path : Text) : IgnoreFile :=
  match tree.readBytes path with
  | .ok bytes => (readLines path {} ((Utf8.lines bytes.data.toList).zipIdx 1)).withinLimits
  | .error _ => {}

/-- What is worth a report: the faults, but not a lone line that is no text, and the refusal. -/
def reported (f : IgnoreFile) : List Text :=
  let faults :=
    match f.faults with
    | [(true, _)] => []
    | faults => faults.map Prod.snd
  faults ++ (f.refusal?.map LimitError.message).toList

end IgnoreFile

/-- The ignore rules that a directory brings, and whether it is the top of a repository. -/
structure DirectoryRules where
  plain : List Pattern
  tracked : List Pattern
  excluded : List Pattern
  isRepository : Bool

namespace DirectoryRules

def firstLine? (tree : Tree) (path : Text) : Except SystemError (Option Text) := do
  match Utf8.lines (← tree.readBytes path).data.toList with
  | [] => return none
  | none :: _ => throw .invalidUtf8
  | some line :: _ => return some line

def report (path : Text) (e : SystemError) : Text := path ++ ": ".toList ++ e.message

/-- The directory that the checkouts of a repository share, which a file in the directory `own` of
one checkout names, or the reports why it is not known.  A missing file needs no report. -/
def sharedDirectory (tree : Tree) (own : Text) : Except (List Text) Text :=
  let pointer := Path.join own "commondir".toList
  match tree.find pointer with
  | .error _ => .error []
  | .ok _ =>
    match firstLine? tree pointer with
    | .error e => .error [report pointer e]
    | .ok none => .error []
    | .ok (some line) => .ok (if line.head? = some '.' then Path.join own line else line)

/-- The directory that holds the files of a repository itself, or the reports why it is not known.
A file in its place leads to it by way of the directory of a checkout. -/
def repositoryDirectory (tree : Tree) (directory : Text) : Except (List Text) Text :=
  let git := Path.join directory ".git".toList
  match tree.find git with
  | .ok (_, .file _) =>
    match firstLine? tree git with
    | .error e => .error [report git e]
    | .ok none => .error []
    | .ok (some line) =>
      match after? "gitdir: ".toList line with
      | none => .error []
      | some own => sharedDirectory tree own
  | _ => .ok git

def load (tree : Tree) (directory : Text) : DirectoryRules × List Text :=
  let plain := IgnoreFile.load tree (Path.join directory ".ignore".toList)
  let tracked := IgnoreFile.load tree (Path.join directory ".gitignore".toList)
  let (excluded, reports) :=
    match repositoryDirectory tree directory with
    | .ok git =>
      let file := IgnoreFile.load tree (Path.join git "info/exclude".toList)
      (file.patterns, file.reported)
    | .error reports => ([], reports)
  let isRepository := [".git", ".jj"].any fun n => tree.has (Path.join directory n.toList)
  (⟨plain.patterns, tracked.patterns, excluded, isRepository⟩,
    plain.reported ++ tracked.reported ++ reports)

end DirectoryRules

/-- The rules of the directories around a path, deepest one first, each with the path as seen from
its directory. -/
abbrev Surroundings := List (DirectoryRules × List UInt8)

def firstVerdict? (isDirectory : Bool) : List (List Pattern × List UInt8) → Option Verdict
  | [] => none
  | (patterns, path) :: rest =>
    (verdict? patterns path isDirectory).or (firstVerdict? isDirectory rest)

/-- The surroundings up to and including the innermost repository. -/
def withinRepository : Surroundings → Surroundings
  | [] => []
  | s :: rest => if s.1.isRepository then [s] else s :: withinRepository rest

def surroundingVerdict? (around : Surroundings) (isDirectory : Bool) : Option Verdict :=
  let repository := if around.any (·.1.isRepository) then withinRepository around else []
  (firstVerdict? isDirectory (around.map fun s => (s.1.plain, s.2))).or <|
    (firstVerdict? isDirectory (repository.map fun s => (s.1.tracked, s.2))).or <|
      firstVerdict? isDirectory (repository.map fun s => (s.1.excluded, s.2))

end LazyFields.Ignore
