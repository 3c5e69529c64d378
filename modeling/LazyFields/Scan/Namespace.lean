import LazyFields.Ignore.Limits

/-!
# The size of a namespace

Type names are searched by an automaton that has the namespace written out in it.  It reads a text
from any place on, and marks the name and the whole of what it has read.  A namespace that makes it
too large is refused.
-/
namespace LazyFields
open Text Ignore

/-- A namespace, a point and a name that begins with an upper-case letter. -/
def referenceExpression (qualifier : Text) : Expression :=
  .row [.bytes ((Utf8.encode qualifier).data.toList ++ [0x2E]), .oneOf [(0x41, 0x5A)],
    .many (.oneOf [(0x30, 0x39), (0x41, 0x5A), (0x5F, 0x5F), (0x61, 0x7A)])]

def referenceSize (qualifier : Text) : Nat :=
  let before := (Expression.many .anyByte).size false
  -- each of the two marks has a beginning and an end, and the last state is that of a match
  let marks := 5 * Expression.stateSize
  before + marks + (referenceExpression qualifier).size false

def qualifierRefusal? (qualifier : Text) : Option Text :=
  if maxAutomatonSize < referenceSize qualifier then
    some ("Compiled regex exceeds size limit of ".toList ++ ofNat maxAutomatonSize ++
      " bytes.".toList)
  else none

end LazyFields
