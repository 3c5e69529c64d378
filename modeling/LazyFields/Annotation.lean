import LazyFields.Candidates
import LazyFields.Schema.Model

/-!
# Annotation of a schema

The marker is written before the semicolon of each line of a body that declares a candidate of its
message and carries no marker yet.  Every other line is kept as it is.

Lines are compared with a field name as it is, however long.  An engine that compiles a pattern for
each candidate first may refuse a name beyond its limits, and would then give up before the first
line: what is said here is said of candidates whose patterns are all accepted.
-/
namespace LazyFields
open Text Schema

/-- A line up to the blanks before its last semicolon, and these blanks.  Only blanks may follow
the semicolon. -/
def beforeSemicolon? (line : Text) : Option (Text × Text) :=
  match (trimEnd line).reverse with
  | ';' :: rest => some ((rest.dropWhile isBlank).reverse, (rest.takeWhile isBlank).reverse)
  | _ => none

def assignsOrdinal (field t : Text) : Bool :=
  match after? field t with
  | none => false
  | some t =>
    match after? ['='] (trimStart t) with
    | none => false
    | some t =>
      let digits := trimStart t
      !digits.isEmpty && digits.all isDecimalDigit

/-- The text is a non-empty row of blanks, and the field name with its ordinal after it.  The name
may itself begin with a blank. -/
def blankThenAssigns (field : Text) : Text → Bool
  | [] => false
  | c :: t => isBlank c && (assignsOrdinal field t || blankThenAssigns field t)

/-- The text declares the field with an unqualified type, up to its ordinal. -/
def declaresField (field t : Text) : Bool :=
  match row? isWord (trimStart t) with
  | none => false
  | some (_, t) => blankThenAssigns field t

/-- The line of a piece with the marker, if it declares one of the fields and has none yet.  What
followed the semicolon is dropped, but for the line end. -/
def mark? (fields : NameSet) (piece : Text) : Option Text :=
  if lazyMarker.holds piece then none
  else
    let (line, lineEnd) := divideEnd piece
    match beforeSemicolon? line with
    | none => none
    | some (front, gap) =>
      if fields.toList.any fun field => declaresField field front then
        some (front ++ ' ' :: lazyMarker ++ gap ++ ';' :: lineEnd)
      else none

def markAt? (c : Candidates) (role : LineRole) (nesting : Nesting) (piece : Text) : Option Text :=
  match role, nesting with
  | .body depth, .inside message _ =>
    if depth = 1 then
      match c.fields? message with
      | some fields => mark? fields piece
      | none => none
    else none
  | _, _ => none

def markPieces (c : Candidates) (nesting : Nesting) : List Text → List (Text × Option Text)
  | [] => []
  | piece :: rest =>
    let (role, next) := nesting.step (trim piece)
    (piece, markAt? c role next piece) :: markPieces c next rest

structure Annotation where
  text : Text
  changes : Nat
deriving DecidableEq

def annotate (content : Text) (c : Candidates) : Annotation :=
  let marked := markPieces c .outside (pieces content)
  ⟨marked.flatMap fun p => p.2.getD p.1, marked.countP (·.2.isSome)⟩

end LazyFields
