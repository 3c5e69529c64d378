import LazyFields.Text

/-!
# Paths

A path is a text in which slashes separate names.  Joining puts paths side by side and normalises
nothing.
-/
namespace LazyFields.Path
open Text

def isAbsolute (path : Text) : Bool := path.head? == some '/'

/-- The path `path` as seen from the directory `base`. -/
def join (base path : Text) : Text :=
  if isAbsolute path then path
  else if base.isEmpty || base.getLast? == some '/' then base ++ path
  else base ++ '/' :: path

/-- The names on a path.  A name is empty where two slashes meet or one ends the path. -/
def names (path : Text) : List Text := splitOn '/' path

/-- The name of the file that a path leads to.  To the system a path is a row of bytes, and the
name need not be a text. -/
def fileName? (path : List UInt8) : Option (List UInt8) :=
  match ((splitOn 0x2F path).filter fun n => !(n.isEmpty || n == [0x2E])).getLast? with
  | some name => if name = [0x2E, 0x2E] then none else some name
  | none => none

end LazyFields.Path
