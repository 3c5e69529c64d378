import LazyFields.NameSet
import LazyFields.Naming
import LazyFields.Schema.Declaration

/-!
# Usage of generated code

A source uses a field by calling its accessor, written `.GetName()`, and a type by naming it behind
the namespace of the generated code.  The text is searched for both; nothing else of the source
is understood.
-/
namespace LazyFields
open Text Schema

/-- An identifier that begins with an upper-case letter, as long as possible, and what follows. -/
def exportedName? : Text → Option (Text × Text)
  | [] => none
  | c :: t => if c.isUpper then some (c :: t.takeWhile isWord, t.dropWhile isWord) else none

/-- What a source is searched for: a reader that looks right at the start of a text, and what it has
read there when it gives a name. -/
structure Reader where
  read? : Text → Option Text
  written : Text → Text

/-- The names that a reader gives in a text, from left to right.  After each the search goes on
behind what has been read; `skip` characters are left of that. -/
def Reader.searchFrom (r : Reader) (skip : Nat) : Text → List Text
  | [] => []
  | c :: t =>
    match skip with
    | skip + 1 => r.searchFrom skip t
    | 0 =>
      match r.read? (c :: t) with
      | some name => name :: r.searchFrom ((r.written name).length - 1) t
      | none => r.searchFrom 0 t

def Reader.search (r : Reader) (t : Text) : List Text := r.searchFrom 0 t

def accessorCall (name : Text) : Text := ".Get".toList ++ (name ++ "()".toList)

def accessorHere? (t : Text) : Option Text := do
  let t ← after? ".Get".toList t
  let (name, t) ← exportedName? t
  let _ ← after? "()".toList t
  return name

def accessorCalls (source : Text) : List Text :=
  Reader.search ⟨accessorHere?, accessorCall⟩ source

def referenceHere? (mark t : Text) : Option Text := do
  let t ← after? mark t
  let (name, _) ← exportedName? t
  return name

/-- The types named in a source behind the namespace and a point, from left to right. -/
def typeReferences (qualifier source : Text) : List Text :=
  Reader.search ⟨referenceHere? (qualifier ++ ['.']), fun name => qualifier ++ ['.'] ++ name⟩ source

/-- The accessors called and the inbound message types named in the sources read so far. -/
structure Usage where
  accessors : NameSet := ∅
  types : NameSet := ∅
deriving DecidableEq

namespace Usage

def add (qualifier : Text) (rules : NamingRules) (u : Usage) (source : Text) : Usage where
  accessors := (accessorCalls source).foldl (fun s n => s.insert n) u.accessors
  types := ((typeReferences qualifier source).filter rules.isInbound).foldl
    (fun s n => s.insert n) u.types

def ofSources (qualifier : Text) (rules : NamingRules) (sources : List Text) : Usage :=
  sources.foldl (add qualifier rules) {}

end Usage
end LazyFields
