import LazyFields.Fault
import LazyFields.Path
import LazyFields.Text.Utf8
import LazyFields.Tree.Basic

/-!
# Paths in a tree

A path is followed name by name from the top directory, or from the working directory if it is
relative.  A symbolic link on the way is followed through its target, and so is one at the end if
the path is to be followed.  At most forty links are followed.
-/
namespace LazyFields.Tree

def maxNameSize : Nat := 255

def maxPathSize : Nat := 4095

/-- Follows names from a directory; `restart` follows names from a directory after one more
link. -/
def followNames (t : Tree) (followLast : Bool)
    (restart : Location → List Text → Except SystemError Location) :
    Location → List Text → Except SystemError Location
  | here, [] => .ok here
  | here, n :: ns =>
    if n = [] ∨ n = ['.'] then followNames t followLast restart here ns
    else if n = ['.', '.'] then followNames t followLast restart here.dropLast ns
    else if maxNameSize < Text.Utf8.size n then .error .nameTooLong
    else
      let there := here ++ [n]
      match t.entry? there with
      | none => .error .notFound
      | some .directory => followNames t followLast restart there ns
      | some (.link target) =>
        if ns.isEmpty && !followLast then .ok there
        else if target.isEmpty then .error .notFound
        else
          let start := if Path.isAbsolute target then [] else here
          restart start (Path.names target ++ ns)
      | some _ => if ns.isEmpty then .ok there else .error .notDirectory

/-- Follows names from a directory through a bounded number of links. -/
def follow (t : Tree) (followLast : Bool) :
    (links : Nat) → Location → List Text → Except SystemError Location
  | 0 => followNames t followLast fun _ _ => .error .linkLoop
  | links + 1 => followNames t followLast (follow t followLast links)

def resolve (t : Tree) (path : Text) (followLast : Bool := true) : Except SystemError Location :=
  if path.contains '\x00' then .error .nulInPath
  else if path.isEmpty then .error .notFound
  else if maxPathSize < Text.Utf8.size path then .error .nameTooLong
  else follow t followLast 40 (if Path.isAbsolute path then [] else t.here) (Path.names path)

def find (t : Tree) (path : Text) (followLast : Bool := true) :
    Except SystemError (Location × Entry) := do
  let l ← t.resolve path followLast
  match t.entry? l with
  | some e => return (l, e)
  | none => throw .notFound

def has (t : Tree) (path : Text) : Bool := (t.find path).toOption.isSome

def readBytes (t : Tree) (path : Text) : Except SystemError ByteArray := do
  match ← t.find path with
  | (_, .file bytes) => return bytes
  | (_, .null) => return ByteArray.empty
  | _ => throw .isDirectory

def readText (t : Tree) (path : Text) : Except SystemError Text := do
  let bytes ← t.readBytes path
  match Text.Utf8.decode? bytes.data.toList with
  | some text => return text
  | none => throw .invalidUtf8

/-- The tree with new bytes in the file to which a path leads; without such a file the tree stays
as it is. -/
def write (t : Tree) (path : Text) (bytes : ByteArray) : Tree :=
  match t.find path with
  | .ok (l, .file _) => t.put l (.file bytes)
  | _ => t

end LazyFields.Tree
