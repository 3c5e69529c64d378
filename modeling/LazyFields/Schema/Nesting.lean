import LazyFields.Schema.Declaration

/-!
# Nesting of lines in messages

Where a line of a schema stands: outside every top-level message, or inside one at some depth of
braces.  Reading and annotating follow the lines by the same step, so they agree on where a line
stands.
-/
namespace LazyFields.Schema

/-- Outside every message, or inside a message at a depth of braces. -/
inductive Nesting where
  | outside
  | inside (message : Text) (depth : Int)
deriving DecidableEq, Repr

/-- What a line is to the messages: none of them, the opening or the end of one, or a line of its
body with the depth after the line. -/
inductive LineRole where
  | outside
  | opened (message : Text)
  | closed (message : Text)
  | body (depth : Int)
deriving DecidableEq, Repr

namespace Nesting

def message? : Nesting → Option Text
  | outside => none
  | inside m _ => some m

def depth : Nesting → Int
  | outside => 0
  | inside _ d => d

/-- Follows one trimmed line.  The line that opens a message counts as one brace, whatever other
braces it holds; the message ends with the line after which as many braces are closed as opened. -/
def step (here : Nesting) (line : Text) : LineRole × Nesting :=
  match here with
  | outside =>
    match messageOpener? line with
    | some m => (.opened m, inside m 1)
    | none => (.outside, outside)
  | inside m d =>
    let d := d + braceBalance line
    if d = 0 then (.closed m, outside) else (.body d, inside m d)

/-- The roles of the lines of a text in turn, each with the nesting after the line. -/
def trace (here : Nesting) : List Text → List (LineRole × Nesting)
  | [] => []
  | line :: lines => here.step line :: trace (here.step line).2 lines

end Nesting
end LazyFields.Schema
