import LazyFields.Ignore.Rules

/-!
# Walks through a tree

A walk visits what lies below a root, directories before what is in them and names in ascending
order.  It passes over what is ignored or hidden, and goes on after anything it cannot visit.
-/
namespace LazyFields
open Ignore Text

structure WalkOptions where
  respectIgnoreFiles : Bool
  followLinks : Bool
  excluded : List Pattern

/-- What a walk comes across: a file with its size and its bytes as far as they can be read,
something else, or a place it cannot visit.  The bytes of a path need not be those of a text. -/
inductive Visit where
  | file (path : List UInt8) (size : Except SystemError Nat)
      (bytes : Except SystemError ByteArray)
  | other (path : List UInt8)
  | fault (detail : Text)

namespace Walk

def bytesOf (path : Text) : List UInt8 := (Utf8.encode path).data.toList

def pathBytes (names : List Text) : List UInt8 := bytesOf (List.intercalate ['/'] names)

def systemFault (path : Text) (e : SystemError) : Visit :=
  .fault (path ++ ": IO error for operation on ".toList ++ path ++ ": ".toList ++ e.message)

/-- A directory that is being visited: where it lies, its path, the names to it from the root, and
its rules with those of the directories above it up to the root, deepest one first. -/
structure Place where
  location : Location
  path : Text
  names : List Text
  rules : List DirectoryRules

/-- What surrounds a walk: its options, the names to its root from the top of the tree, and the
rules of the directories above the root, deepest one first. -/
structure Scope where
  options : WalkOptions
  rootNames : List Text
  above : List DirectoryRules

def Scope.surroundings (scope : Scope) (place : Place) (name : Text) : Surroundings :=
  let names := place.names ++ [name]
  let inner := place.rules.zipIdx.map fun (r, k) =>
    (r, pathBytes (names.drop (place.names.length - k)))
  let whole := scope.rootNames ++ names
  let outer := scope.above.zipIdx.map fun (r, k) =>
    (r, pathBytes (whole.drop (scope.rootNames.length - 1 - k)))
  inner ++ outer

/-- An entry of a directory is passed over.  Excluded patterns go before ignore files, and a hidden
name is visited only when an ignore file brings it back. -/
def Scope.skips (scope : Scope) (place : Place) (name : Text) (isDirectory : Bool) : Bool :=
  let path := pathBytes (place.names ++ [name])
  if scope.options.excluded.any (·.applies path isDirectory) then true
  else if scope.options.respectIgnoreFiles then
    match surroundingVerdict? (scope.surroundings place name) isDirectory with
    | some .hidden => true
    | some .restored => false
    | none => name.head? == some '.'
  else false

def Place.enter (tree : Tree) (options : WalkOptions) (place : Place) (location : Location)
    (path name : Text) : Place where
  location
  path
  names := place.names ++ [name]
  rules :=
    if options.respectIgnoreFiles then (DirectoryRules.load tree path).1 :: place.rules
    else place.rules

def visitFile (tree : Tree) (path : Text) : Visit :=
  let bytes := tree.readBytes path
  .file (bytesOf path) (bytes.map ByteArray.size) bytes

/-- What an entry of a directory is to the walk: a fault, a directory at a location, a file, or
something else.  A link is what it leads to, if links are followed, and must not lead back to a
directory that is being visited. -/
inductive Kind where
  | fault (v : Visit)
  | directory (l : Location)
  | file
  | other

def kind (tree : Tree) (options : WalkOptions) (around : List Place) (location : Location)
    (path : Text) : Entry → Kind
  | .file _ => .file
  | .null => .other
  | .directory => .directory location
  | .link _ =>
    if options.followLinks then
      match tree.find path with
      | .error e => .fault (systemFault path e)
      | .ok (l, .directory) =>
        match around.find? fun p => decide (p.location = l) with
        | some p =>
          .fault (.fault ("File system loop found: ".toList ++ path ++
            " points to an ancestor ".toList ++ p.path))
        | none => .directory l
      | .ok (_, .file _) => .file
      | .ok _ => .other
    else .other

/-- The visits in a directory, which is the first of the places.  The fuel bounds the depth. -/
def visitDirectory (tree : Tree) (scope : Scope) : (fuel : Nat) → (around : List Place) →
    List Visit
  | 0, _ => []
  | _ + 1, [] => []
  | fuel + 1, place :: above =>
    (tree.children place.location).flatMap fun (name, entry) =>
      let path := Path.join place.path name
      match kind tree scope.options (place :: above) (place.location ++ [name]) path entry with
      | .fault v => [v]
      | .directory l =>
        if scope.skips place name true then []
        else
          .other (bytesOf path) :: visitDirectory tree scope fuel
            (place.enter tree scope.options l path name :: place :: above)
      | .file => if scope.skips place name false then [] else [visitFile tree path]
      | .other => if scope.skips place name false then [] else [.other (bytesOf path)]

def above (l : Location) : List Location := (List.range l.length).reverse.map fun k => l.take k

/-- The rules of the directories above a location, deepest one first, and the reports on their
ignore files, from the top down. -/
def rulesAbove (tree : Tree) (l : Location) : List DirectoryRules × List Text :=
  let loaded := (above l).map fun up =>
    DirectoryRules.load tree ('/' :: List.intercalate ['/'] up)
  (loaded.map Prod.fst, (loaded.reverse.flatMap Prod.snd))

/-- The visits below a root directory.  No directory is entered twice on the way to another one but
through a link to a directory above it, so the depth is bounded by the square of the size of the
tree. -/
def visitRoot (tree : Tree) (options : WalkOptions) (root : Text) (l : Location) : List Visit :=
  let (rules, reports) := if options.respectIgnoreFiles then rulesAbove tree l else ([], [])
  let own :=
    if options.respectIgnoreFiles then [(DirectoryRules.load tree root).1] else []
  let report : List Visit :=
    if reports.isEmpty then [] else [.fault (List.intercalate ['\n'] reports)]
  let size := tree.entries.length + 2
  report ++ .other (bytesOf root) ::
    visitDirectory tree ⟨options, l, rules⟩ (size * size) [⟨l, root, [], own⟩]

end Walk

/-- The visits of a walk.  The root is visited whatever the patterns say, and a link in its place
is followed. -/
def Tree.walk (tree : Tree) (options : WalkOptions) (root : Text) : List Visit :=
  match tree.find root with
  | .error e => [Walk.systemFault root e]
  | .ok (l, .directory) => Walk.visitRoot tree options root l
  | .ok (_, .file _) => [Walk.visitFile tree root]
  | .ok _ => [.other (Walk.bytesOf root)]

end LazyFields
