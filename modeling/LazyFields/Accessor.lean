import LazyFields.Text.Case
import LazyFields.Text

/-!
# Accessor names

Generated code names the accessor of a field after the field: the parts between underscores are
joined, each with an upper-case first character and the others in lower case.
-/
namespace LazyFields
open Text

def capitalise : Text → Text
  | [] => []
  | c :: t => upperCase c ++ t.flatMap lowerCase

/-- The accessor name of a field, without the verb before it. -/
def accessorName (field : Text) : Text := (splitOn '_' field).flatMap capitalise

end LazyFields
