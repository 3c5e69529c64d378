import LazyFields.NameMap

/-!
# Candidates for the marker

The fields to be marked are a finite set of pairs of a message and a field.  Messages and fields
are kept in ascending order, and a message is kept only with a field.
-/
namespace LazyFields

/-- A finite set of pairs of a message and a field. -/
structure Candidates where
  byMessage : NameMap NameSet
  inhabited : ∀ e ∈ byMessage.toList, e.2.toList ≠ []

namespace Candidates

instance : DecidableEq Candidates := fun s t =>
  decidable_of_iff (s.byMessage = t.byMessage) (by cases s; cases t; simp)

def empty : Candidates := ⟨∅, by intro e he; cases he⟩

instance : EmptyCollection Candidates := ⟨empty⟩

instance : Inhabited Candidates := ⟨∅⟩

theorem insert_ne_nil (n : Text) (s : NameSet) : (s.insert n).toList ≠ [] :=
  List.ne_nil_of_mem (NameSet.mem_insert.2 (.inl rfl) : n ∈ (s.insert n).toList)

def insert (c : Candidates) (message field : Text) : Candidates where
  byMessage := c.byMessage.insert message
    (((c.byMessage.find? message).getD ∅).insert field)
  inhabited := by
    intro e he
    rcases NameMap.mem_place he with rfl | he
    · exact insert_ne_nil _ _
    · exact c.inhabited e he

def ofList (pairs : List (Text × Text)) : Candidates :=
  pairs.foldl (fun c p => c.insert p.1 p.2) ∅

def fields? (c : Candidates) (message : Text) : Option NameSet := c.byMessage.find? message

theorem fields?_insert (c : Candidates) (message field m : Text) :
    (c.insert message field).fields? m =
      if m = message then some (((c.fields? message).getD ∅).insert field) else c.fields? m :=
  NameMap.find?_insert ..

def total (c : Candidates) : Nat :=
  c.byMessage.toList.foldr (fun e n => e.2.size + n) 0

def isEmpty (c : Candidates) : Bool := c.byMessage.toList.isEmpty

/-- The messages in ascending order, each with its fields in ascending order. -/
def toList (c : Candidates) : List (Text × List Text) :=
  c.byMessage.toList.map fun e => (e.1, e.2.toList)

end Candidates
end LazyFields
