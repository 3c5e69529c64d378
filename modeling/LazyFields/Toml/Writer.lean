import LazyFields.Text

/-!
# Writing TOML

A string is written in the first form that fits it: in double quotes when nothing in it needs an
escape, then in single quotes, then in the long forms, and with escapes as the last resort.
-/
namespace LazyFields.Toml

inductive StringForm where
  | basic
  | literal
  | longBasic
  | longLiteral
deriving DecidableEq, Repr

/-- A control character other than a tab or a line feed. -/
def isControl (c : Char) : Bool :=
  (c.toNat < 0x20 && c != '\t' && c != '\n') || c.toNat == 0x7F

/-- The length of the longest run of a character, when a run of `run` ends where the text
starts. -/
def longestRunFrom (quote : Char) (run : Nat) : Text → Nat
  | [] => run
  | c :: t =>
    if c = quote then longestRunFrom quote (run + 1) t
    else max run (longestRunFrom quote 0 t)

def longestRun (quote : Char) (t : Text) : Nat := longestRunFrom quote 0 t

def StringForm.ofText (t : Text) : StringForm :=
  let control := t.any isControl
  let backslash := t.contains '\\'
  let newline := t.contains '\n'
  let singles := longestRun '\'' t
  let doubles := longestRun '"' t
  if !control && !backslash && !newline && doubles == 0 then .basic
  else if !control && !newline && singles == 0 then .literal
  else if !control && !backslash && decide (doubles ≤ 2) then .longBasic
  else if !control && decide (singles ≤ 2) then .longLiteral
  else if newline then .longBasic
  else .basic

def hexDigit (n : Nat) : Char := if n < 10 then Char.ofNat (0x30 + n) else Char.ofNat (0x37 + n)

/-- A character as it stands in a basic string, quotes and line feeds apart. -/
def escapeChar (c : Char) : Text :=
  if c = '\x08' then ['\\', 'b']
  else if c = '\t' then ['\\', 't']
  else if c = '\x0c' then ['\\', 'f']
  else if c = '\r' then ['\\', 'r']
  else if c = '\\' then ['\\', '\\']
  else if c.toNat < 0x20 ∨ c.toNat = 0x7F then
    ['\\', 'u', '0', '0', hexDigit (c.toNat / 16), hexDigit (c.toNat % 16)]
  else [c]

def basicBody (t : Text) : Text :=
  t.flatMap fun c =>
    if c = '"' then ['\\', '"'] else if c = '\n' then ['\\', 'n'] else escapeChar c

/-- The inside of a long basic string, where the third quote of a run is escaped; `run` quotes
stand before the text. -/
def longBasicBody (run : Nat) : Text → Text
  | [] => []
  | c :: t =>
    if c = '"' then
      if run < 2 then '"' :: longBasicBody (run + 1) t else '\\' :: '"' :: longBasicBody 0 t
    else if c = '\n' then '\n' :: longBasicBody 0 t
    else escapeChar c ++ longBasicBody 0 t

def writeString (t : Text) : Text :=
  let lineEnd : Text := if t.contains '\n' then ['\n'] else []
  match StringForm.ofText t with
  | .basic => '"' :: basicBody t ++ ['"']
  | .literal => '\'' :: t ++ ['\'']
  | .longBasic => ['"', '"', '"'] ++ lineEnd ++ longBasicBody 0 t ++ ['"', '"', '"']
  | .longLiteral => ['\'', '\'', '\''] ++ lineEnd ++ t ++ ['\'', '\'', '\'']

/-- An array of strings: more than one item take a line each. -/
def writeStrings : List Text → Text
  | [] => ['[', ']']
  | [t] => '[' :: writeString t ++ [']']
  | ts =>
    let line (t : Text) : Text := "    ".toList ++ writeString t ++ [',', '\n']
    '[' :: '\n' :: ts.flatMap line ++ [']']

def writeBool (b : Bool) : Text := if b then "true".toList else "false".toList

def writeEntry (key value : Text) : Text := key ++ " = ".toList ++ value ++ ['\n']

/-- The line of an option, which is left out when it is not set. -/
def writeOption {α : Type} (key : Text) (write : α → Text) : Option α → Text
  | none => []
  | some a => writeEntry key (write a)

end LazyFields.Toml
