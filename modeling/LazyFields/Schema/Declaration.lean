import LazyFields.Text.Blank
import LazyFields.Text.Digit

/-!
# Declarations on a line

The recognisers for the three kinds of line that matter in a schema: the opening of an enum, the
opening of a message, and the declaration of a field.  Each is a sequence of rows of characters
from classes, and a class is disjoint from whatever may follow it, so the longest row is the only
choice.  Text after the recognised part is ignored.
-/
namespace LazyFields

namespace Text

/-- The longest row of characters of a class at the start of a text, and what follows it.  The
row must not be empty. -/
def row? (p : Char → Bool) (t : Text) : Option (Text × Text) :=
  match t.takeWhile p with
  | [] => none
  | row => some (row, t.dropWhile p)

theorem row?_eq_some_iff {p : Char → Bool} {t row rest : Text} :
    row? p t = some (row, rest) ↔
      t = row ++ rest ∧ row ≠ [] ∧ (∀ c ∈ row, p c = true) ∧
        ∀ c, rest.head? = some c → p c = false := by
  constructor
  · intro h
    unfold row? at h
    split at h
    · contradiction
    · rename_i ne
      obtain ⟨rfl, rfl⟩ : t.takeWhile p = row ∧ t.dropWhile p = rest := by simpa using h
      refine ⟨List.takeWhile_append_dropWhile.symm, ne, fun c hc => ?_, fun c hc => ?_⟩
      · exact List.all_eq_true.1 List.all_takeWhile c hc
      · have := List.head?_dropWhile_not p t
        rw [hc] at this
        simpa using this
  · rintro ⟨rfl, ne, inside, stop⟩
    have take : rest.takeWhile p = [] := by
      cases rest with
      | nil => rfl
      | cons c rest => simp [stop c rfl]
    have drop : rest.dropWhile p = rest := by
      cases rest with
      | nil => rfl
      | cons c rest => simp [stop c rfl]
    unfold row?
    rw [List.takeWhile_append_of_pos inside, List.dropWhile_append_of_pos inside, take, drop,
      List.append_nil]
    split
    · contradiction
    · rfl

/-- A blank ends a row of digits, and a digit a row of blanks. -/
theorem isBlank_eq_false_of_isDecimalDigit {c : Char} (h : isDecimalDigit c = true) :
    isBlank c = false :=
  Ranges.not_has_of_apart (by decide) h

end Text

namespace Schema
open Text

def isWord (c : Char) : Bool := c.isAlphanum || c == '_'

/-- A character of a type name, which may be qualified. -/
def isTypeName (c : Char) : Bool := isWord c || c == '.'

def isFieldStart (c : Char) : Bool := c.isLower || c == '_'

def isFieldRest (c : Char) : Bool := isFieldStart c || c.isDigit

def opener? (keyword : Text) (line : Text) : Option Text := do
  let line ← after? keyword line
  let (_, line) ← row? isBlank line
  let (name, line) ← row? isWord line
  let _ ← after? ['{'] (trimStart line)
  return name

def enumOpener? (line : Text) : Option Text := opener? "enum".toList line

def messageOpener? (line : Text) : Option Text := opener? "message".toList line

structure FieldDeclaration where
  type : Text
  name : Text
  ordinal : Nat
deriving DecidableEq, Repr

def fieldName? : Text → Option (Text × Text)
  | [] => none
  | c :: t =>
    if isFieldStart c then some (c :: t.takeWhile isFieldRest, t.dropWhile isFieldRest) else none

/-- The ordinal that a row of decimal digits writes: a number of ASCII digits below 2³². -/
def ordinal? (digits : Text) : Option Nat := do
  let n ← number? digits
  if n < UInt32.size then return n else none

/-- The field that the line declares: a type, a name, an equals sign, an ordinal and a semicolon,
with nothing between the ordinal and the semicolon but blanks. -/
def fieldDeclaration? (line : Text) : Option FieldDeclaration := do
  let (type, line) ← row? isTypeName line
  let (_, line) ← row? isBlank line
  let (name, line) ← fieldName? line
  let line ← after? ['='] (trimStart line)
  let (digits, line) ← row? isDecimalDigit (trimStart line)
  let _ ← after? [';'] (trimStart line)
  return ⟨type, name, ← ordinal? digits⟩

/-- How much deeper the braces of a line nest: opening braces less closing ones. -/
def braceBalance (line : Text) : Int :=
  line.foldl (fun depth c => if c = '{' then depth + 1 else if c = '}' then depth - 1 else depth) 0

end Schema
end LazyFields
