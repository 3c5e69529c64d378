import LazyFields.Text.CaseTable
import LazyFields.Text

/-!
# Case

Upper and lower case of a character by the full mappings: one character may become several.
-/
namespace LazyFields.Text

/-- The case of a character outside ASCII, by its tables. -/
def mapCase (long : List (Nat × List Nat)) (runs : List CaseRun) (c : Char) : Text :=
  match long.lookup c.toNat with
  | some codes => codes.map Char.ofNat
  | none =>
    match runs.find? (·.has c.toNat) with
    | some r => [Char.ofNat ((c.toNat : Int) + r.shift).toNat]
    | none => [c]

def upperCase (c : Char) : Text :=
  if c.toNat < 0x80 then [c.toUpper] else mapCase upperLong upperRuns c

def lowerCase (c : Char) : Text :=
  if c.toNat < 0x80 then [c.toLower] else mapCase lowerLong lowerRuns c

end LazyFields.Text
