import LazyFields.Toml.Quoted
import LazyFields.Toml.Scalar

/-!
# Reading TOML documents

A document is first read into statements: assignments to keys, and headers of tables.  The
statements are then put together into one table, where no key is assigned twice and no table is
defined twice.
-/
namespace LazyFields.Toml
open Text

inductive Statement where
  | assign (path : List Text) (key : Text) (value : Value)
  | header (path : List Text) (key : Text)
  | arrayHeader (path : List Text) (key : Text)

/-- Arrays and inline tables nest up to this depth. -/
def maxNesting : Nat := 79

def maxSteps : Nat := 80

def skipSpaces (t : Text) : Text := t.dropWhile isSpace

def isKeyChar (c : Char) : Bool := c.isAlphanum || c == '_' || c == '-'

def readStep? : Text → Option (Text × Text)
  | '"' :: t => readBasic 0 [] t
  | '\'' :: t => readLiteral [] t
  | t =>
    match t.takeWhile isKeyChar with
    | [] => none
    | key => some (key, t.dropWhile isKeyChar)

/-- A dotted key: the steps before the last one, backwards, and the last one. -/
def readSteps? : (fuel : Nat) → List Text → Text → Option ((List Text × Text) × Text)
  | 0, _, _ => none
  | fuel + 1, steps, t => do
    let (key, t) ← readStep? (skipSpaces t)
    match skipSpaces t with
    | '.' :: t => readSteps? fuel (key :: steps) t
    | t => return ((steps.reverse, key), t)

def readKey? (t : Text) : Option ((List Text × Text) × Text) := readSteps? (maxSteps - 1) [] t

def skipComment? : Text → Option Text
  | '#' :: t =>
    let rest := t.dropWhile isPlain
    match rest with
    | [] => some []
    | '\n' :: _ => some rest
    | '\r' :: '\n' :: _ => some rest
    | _ => none
  | t => some t

/-- What follows the end of a statement: blanks, a comment or none, and a line end. -/
def afterStatement? (t : Text) : Option Text := do
  match ← skipComment? (skipSpaces t) with
  | [] => return []
  | '\n' :: t => return t
  | '\r' :: '\n' :: t => return t
  | _ => none

/-- The text behind blanks, line ends and comments, among which the items of an array stand. -/
def skipLayout? : (fuel : Nat) → Text → Option Text
  | 0, t => some t
  | fuel + 1, t =>
    match skipSpaces t with
    | '\n' :: t => skipLayout? fuel t
    | '\r' :: '\n' :: t => skipLayout? fuel t
    | '#' :: t => do skipLayout? fuel (← skipComment? ('#' :: t))
    | t => some t

/-- The items of an array behind its opening bracket, and what follows the closing one.  The fuel
exceeds the length of the text, which every item and every step of layout makes shorter. -/
def readItems? (read : Text → Option (Value × Text)) :
    (fuel : Nat) → List Value → Text → Option (List Value × Text)
  | 0, _, _ => none
  | fuel + 1, items, t => do
    match ← skipLayout? (fuel + 1) t with
    | ']' :: t => return (items.reverse, t)
    | t =>
      let (item, t) ← read t
      match ← skipLayout? (fuel + 1) t with
      | ',' :: t => readItems? read fuel (item :: items) t
      | ']' :: t => return ((item :: items).reverse, t)
      | _ => none

/-- Adds a value under a dotted key.  A table on the way is new or came about by dotted keys; the
key itself must be new. -/
def assign (key : Text) (v : Value) : (path : List Text) → Entries → Option Entries
  | [], es => if (es.lookup key).isSome then none else some (es ++ [(key, v)])
  | step :: path, es =>
    let put (v : Value) : Entries := es.map fun e => if e.1 = step then (step, v) else e
    match es.lookup step with
    | none => do return es ++ [(step, .table .dotted (← assign key v path []))]
    | some (.table .dotted sub) => do return put (.table .dotted (← assign key v path sub))
    | some (.table .implied sub) =>
      if path.isEmpty then none
      else do return put (.table .implied (← assign key v path sub))
    | some (.tables items) =>
      if path.isEmpty then none
      else do
        let sub ← assign key v path (← items.getLast?)
        return put (.tables (items.dropLast ++ [sub]))
    | some _ => none

def readPairs? (read : Text → Option (Value × Text)) :
    (fuel : Nat) → Entries → Text → Option (Entries × Text)
  | 0, _, _ => none
  | fuel + 1, es, t => do
    let ((path, key), t) ← readKey? t
    let t ← after? ['='] t
    let (v, t) ← read (skipSpaces t)
    let es ← assign key v path es
    match skipSpaces t with
    | ',' :: t => readPairs? read fuel es t
    | '}' :: t => return (es, t)
    | _ => none

def readAtom? (t : Text) : Option (Value × Text) :=
  if t.head? = some '"' ∨ t.head? = some '\'' then
    (readString? t).map fun (s, t) => (.string s, t)
  else readScalar? t

/-- The value at the start of a text, and what follows it; arrays and inline tables may nest
`depth` levels.  The fuel is more than the length of the text. -/
def readValue? (fuel : Nat) : (depth : Nat) → Text → Option (Value × Text)
  | 0, t => readAtom? t
  | depth + 1, t =>
    match t with
    | '[' :: rest =>
      (readItems? (readValue? fuel depth) fuel [] rest).map fun (items, t) => (.array items, t)
    | '\x7b' :: rest =>
      match skipSpaces rest with
      | '}' :: t => some (.table .inline [], t)
      | rest =>
        (readPairs? (readValue? fuel depth) fuel [] rest).map fun (es, t) => (.table .inline es, t)
    | t => readAtom? t

/-- The statements of a document.  The fuel is more than the length of the document. -/
def readStatements? : (fuel : Nat) → Text → Option (List Statement)
  | 0, _ => none
  | fuel + 1, t =>
    match skipSpaces t with
    | [] => some []
    | '\n' :: t => readStatements? fuel t
    | '\r' :: '\n' :: t => readStatements? fuel t
    | '#' :: t => do readStatements? fuel (← afterStatement? ('#' :: t))
    | '[' :: '[' :: t => do
      let ((path, key), t) ← readKey? t
      let t ← afterStatement? (← after? [']', ']'] t)
      return .arrayHeader path key :: (← readStatements? fuel t)
    | '[' :: t => do
      let ((path, key), t) ← readKey? t
      let t ← afterStatement? (← after? [']'] t)
      return .header path key :: (← readStatements? fuel t)
    | t => do
      let ((path, key), t) ← readKey? t
      let (v, t) ← readValue? (fuel + 1) maxNesting (skipSpaces (← after? ['='] t))
      let t ← afterStatement? t
      return .assign path key v :: (← readStatements? fuel t)

/-- Edits the table to which a path of headers leads.  A table on the way that is missing is
implied; of an array of tables the last one is meant. -/
def editAt (edit : Entries → Option Entries) : (path : List Text) → Entries → Option Entries
  | [], es => edit es
  | step :: path, es =>
    let put (v : Value) : Entries := es.map fun e => if e.1 = step then (step, v) else e
    match es.lookup step with
    | none => do return es ++ [(step, .table .implied (← editAt edit path []))]
    | some (.table .inline _) => none
    | some (.table form sub) => do return put (.table form (← editAt edit path sub))
    | some (.tables items) => do
      let sub ← editAt edit path (← items.getLast?)
      return put (.tables (items.dropLast ++ [sub]))
    | some _ => none

/-- Opens a table by its header: it is new, or so far only implied. -/
def openTable (key : Text) (es : Entries) : Option Entries :=
  match es.lookup key with
  | none => some (es ++ [(key, .table .header [])])
  | some (.table .implied sub) =>
    some (es.map fun e => if e.1 = key then (key, .table .header sub) else e)
  | some _ => none

def openArrayTable (key : Text) (es : Entries) : Option Entries :=
  match es.lookup key with
  | none => some (es ++ [(key, .tables [[]])])
  | some (.tables items) =>
    some (es.map fun e => if e.1 = key then (key, .tables (items ++ [[]])) else e)
  | some _ => none

/-- The table so far and the path of the header under which the next assignment stands. -/
structure Assembly where
  root : Entries := []
  current : List Text := []

namespace Assembly

def push (a : Assembly) : Statement → Option Assembly
  | .assign path key v => do return { a with root := ← editAt (assign key v path) a.current a.root }
  | .header path key => do return ⟨← editAt (openTable key) path a.root, path ++ [key]⟩
  | .arrayHeader path key => do return ⟨← editAt (openArrayTable key) path a.root, path ++ [key]⟩

end Assembly

def read? (document : Text) : Option Entries := do
  let t := match document with
    | '\uFEFF' :: t => t
    | t => t
  let statements ← readStatements? (t.length + 1) t
  return (← statements.foldlM Assembly.push {}).root

end LazyFields.Toml
