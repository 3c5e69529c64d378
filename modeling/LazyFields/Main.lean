import LazyFields.CommandLine

/-!
# The command

Reads the files that a run may look at, carries out the command on them, prints what it prints and
writes the files that it changed.
-/
namespace LazyFields.Main

def pathOf (l : Location) : String := String.ofList ('/' :: List.intercalate ['/'] l)

def locationOf (path : String) : Location :=
  (Path.names path.toList).filter fun n => !n.isEmpty

/-- The path without links that leads to the same place, if there is such a place. -/
def realPath? (path : String) : IO (Option String) := do
  match ← (IO.FS.realPath path).toBaseIO with
  | .ok real => return some real.toString
  | .error _ => return none

def listing (l : Location) : IO (Array IO.FS.DirEntry) := do
  let read : IO (Array IO.FS.DirEntry) := do (← IO.FS.realPath (pathOf l)).readDir
  match ← read.toBaseIO with
  | .ok entries => return entries
  | .error _ => return #[]

/-- Adds what lies at a location and behind a link in its place, and what lies below it if `deep`.
A link is kept with the place to which it finally leads. -/
partial def gather (deep : Bool) (tree : Tree) (l : Location) : IO Tree := do
  if (tree.entries.lookup l).isSome then return tree
  let path := pathOf l
  match (← listing l.dropLast).find? fun e => l.getLast? == some e.fileName.toList with
  | none => return tree
  | some entry =>
    match (← entry.path.symlinkMetadata).type with
    | .file => return tree.place l (.file (← IO.FS.readBinFile path))
    | .dir =>
      let tree := tree.place l .directory
      if deep then
        (← listing l).foldlM (fun tree e => gather deep tree (l ++ [e.fileName.toList])) tree
      else return tree
    | .symlink =>
      match ← realPath? path with
      | some target =>
        gather deep (tree.place l (.link target.toList)) (locationOf target)
      | none => return tree.place l (.link [])
    | .other => return tree.place l .null

/-- Adds the files by which a directory above the root can hide what lies below it. -/
def gatherAbove (tree : Tree) (l : Location) : IO Tree := do
  let tree ← (← listing l).foldlM
    (fun tree e =>
      if [".git", ".jj", ".ignore", ".gitignore"].contains e.fileName then
        gather false tree (l ++ [e.fileName.toList])
      else return tree)
    tree
  gather false tree (l ++ locationOf ".git/info/exclude")

def gatherPath (tree : Tree) (path : String) : IO Tree := do
  let names := Path.names path.toList
  let ways := (List.range names.length).map fun k =>
    (String.ofList (List.intercalate ['/'] (names.take k)), names.drop k)
  ways.foldlM
    (fun tree (way, rest) => do
      match ← realPath? (way ++ "/"), rest with
      | some directory, name :: _ =>
        if name = [] ∨ name = ['.'] ∨ name = ['.', '.'] then return tree
        else gather false tree (locationOf directory ++ [name])
      | _, _ => return tree)
    tree

def environment : IO Environment := do
  let vars ← Environment.variableNames.filterMapM fun name => do
    return (← IO.getEnv (String.ofList name)).map fun value => (name, value.toList)
  return .ofVariables vars

def gatherRun (root : String) (env : Environment) : IO Tree := do
  let l := locationOf root
  let tree ← gather true { here := l } l
  let tree ← (Walk.above l).foldlM gatherAbove tree
  match loadConfig tree root.toList env with
  | .error _ => return tree
  | .ok config => gatherPath tree (String.ofList (config.schema.locate root.toList))

def store (before after : Tree) : IO Unit :=
  after.entries.forM fun (l, e) => do
    match e, before.entry? l with
    | .file new, some (.file old) =>
      if new.data != old.data then IO.FS.writeBinFile (pathOf l) new
    | _, _ => return

end LazyFields.Main

def main (arguments : List String) : IO UInt32 := do
  let root := (← IO.currentDir).toString
  let env ← LazyFields.Main.environment
  let tree ← LazyFields.Main.gatherRun root env
  let output := LazyFields.CommandLine.execute tree env (arguments.map String.toList)
  LazyFields.Main.store tree output.tree
  IO.print (String.ofList output.out)
  IO.eprint (String.ofList output.err)
  return UInt32.ofNat output.status
