import LazyFields.Text.Ranges
import LazyFields.Text

/-!
# Blanks

A character is blank when it has the property White_Space.  Trimming removes the blanks at the
ends of a text and nothing else.
-/
namespace LazyFields.Text

/-- The characters with the property White_Space. -/
def blanks : Ranges :=
  [(0x09, 0x0D), (0x20, 0x20), (0x85, 0x85), (0xA0, 0xA0), (0x1680, 0x1680), (0x2000, 0x200A),
   (0x2028, 0x2029), (0x202F, 0x202F), (0x205F, 0x205F), (0x3000, 0x3000)]

def isBlank (c : Char) : Bool := blanks.has c

def trimStart (t : Text) : Text := t.dropWhile isBlank

def trimEnd (t : Text) : Text :=
  t.foldr (fun c rest => if rest.isEmpty && isBlank c then [] else c :: rest) []

theorem trimEnd_eq (t : Text) : trimEnd t = (t.reverse.dropWhile isBlank).reverse := by
  induction t with
  | nil => rfl
  | cons c t ih =>
    simp only [trimEnd, List.foldr_cons] at ih ⊢
    rw [ih, List.reverse_cons, List.dropWhile_append]
    cases h : t.reverse.dropWhile isBlank with
    | nil => by_cases hc : isBlank c <;> simp [hc]
    | cons d ds => simp

def trim (t : Text) : Text := trimEnd (trimStart t)

end LazyFields.Text
