import LazyFields.NameMap

/-!
# File trees

A tree of files is a finite table from locations to what lies there, with a working directory.  The
top directory is always there; whoever adds an entry adds the directories above it.  All names are
texts: what lies under a name that is none is left out.
-/
namespace LazyFields

/-- The names on the way from the top directory. -/
abbrev Location := List Text

/-- A file with its bytes, a symbolic link with its target as written, a directory, or the null
device, which reads as nothing and swallows what is written. -/
inductive Entry where
  | file (bytes : ByteArray)
  | link (target : Text)
  | directory
  | null

/-- A finite tree of files, and the working directory, from which relative paths start. -/
structure Tree where
  entries : List (Location × Entry) := []
  here : Location := []

namespace Tree

def entry? (t : Tree) : Location → Option Entry
  | [] => some .directory
  | l => t.entries.lookup l

def isDirectory (t : Tree) (l : Location) : Bool :=
  match t.entry? l with
  | some .directory => true
  | _ => false

def put (t : Tree) (l : Location) (e : Entry) : Tree :=
  if (t.entries.lookup l).isSome then
    { t with entries := t.entries.map fun p => if p.1 = l then (l, e) else p }
  else { t with entries := t.entries ++ [(l, e)] }

def erase (t : Tree) (l : Location) : Tree :=
  { t with entries := t.entries.filter fun p => !l.isPrefixOf p.1 }

/-- The tree with the directories of a list of names below a location, as far as nothing lies
there yet. -/
def putDirectories (t : Tree) (above : Location) : List Text → Tree
  | [] => t
  | n :: ns =>
    let l := above ++ [n]
    putDirectories (if (t.entry? l).isSome then t else t.put l .directory) l ns

def place (t : Tree) (l : Location) (e : Entry) : Tree :=
  (t.putDirectories [] l.dropLast).put l e

/-- What lies in a directory, in ascending order of the names. -/
def children (t : Tree) (l : Location) : List (Text × Entry) :=
  (t.entries.foldl
    (fun m (p : Location × Entry) =>
      match p.1.getLast? with
      | some n => if p.1.dropLast = l then m.insert n p.2 else m
      | none => m)
    (∅ : NameMap Entry)).toList

end Tree
end LazyFields
