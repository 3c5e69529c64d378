import LazyFields.Text

/-!
# Reading quoted strings

The four forms of a TOML string.  Basic forms know escapes, literal forms do not; long forms may
hold line ends, and up to two quotes in a row.  Each reader starts behind the opening quotes and
returns the text and what follows the closing quotes.
-/
namespace LazyFields.Toml
open Text

/-- A character that may stand in a comment or a string: a tab, or no control character. -/
def isPlain (c : Char) : Bool := c == '\t' || (0x20 ≤ c.toNat && c.toNat != 0x7F)

def isSpace (c : Char) : Bool := c == ' ' || c == '\t'

def hexDigit? (c : Char) : Option Nat :=
  if c.isDigit then some (c.toNat - '0'.toNat)
  else if 'a' ≤ c ∧ c ≤ 'f' then some (c.toNat - 'a'.toNat + 10)
  else if 'A' ≤ c ∧ c ≤ 'F' then some (c.toNat - 'A'.toNat + 10)
  else none

def codePoint? (n : Nat) (t : Text) : Option Char := do
  if t.length < n then none
  let digits ← (t.take n).mapM hexDigit?
  let code := digits.foldl (fun code d => 16 * code + d) 0
  if code < 0xD800 ∨ (0xDFFF < code ∧ code < 0x110000) then return Char.ofNat code else none

/-- The character of the escape at the start of a text, behind its backslash, and the number of
characters of the escape. -/
def escape? : Text → Option (Char × Nat)
  | [] => none
  | c :: t =>
    if c = 'b' then some ('\x08', 1)
    else if c = 't' then some ('\t', 1)
    else if c = 'n' then some ('\n', 1)
    else if c = 'f' then some ('\x0c', 1)
    else if c = 'r' then some ('\r', 1)
    else if c = '"' then some ('"', 1)
    else if c = '\\' then some ('\\', 1)
    else if c = 'u' then (codePoint? 4 t).map (·, 5)
    else if c = 'U' then (codePoint? 8 t).map (·, 9)
    else none

/-- Reads a basic string on one line; `skip` characters of an escape are already read, and `read`
is the text so far, backwards. -/
def readBasic (skip : Nat) (read : Text) : Text → Option (Text × Text)
  | [] => none
  | c :: t =>
    match skip with
    | skip + 1 => readBasic skip read t
    | 0 =>
      if c = '"' then some (read.reverse, t)
      else if c = '\\' then
        match escape? t with
        | some (e, used) => readBasic used (e :: read) t
        | none => none
      else if isPlain c then readBasic 0 (c :: read) t
      else none

def readLiteral (read : Text) : Text → Option (Text × Text)
  | [] => none
  | c :: t =>
    if c = '\'' then some (read.reverse, t)
    else if isPlain c then readLiteral (c :: read) t
    else none

def gapLength : Text → Nat
  | [] => 0
  | '\r' :: '\n' :: t => gapLength t + 2
  | c :: t => if isSpace c || c == '\n' then gapLength t + 1 else 0

def startsLine : Text → Bool
  | '\n' :: _ => true
  | '\r' :: '\n' :: _ => true
  | _ => false

/-- The end of a long string whose closing run of quotes starts here, behind its first quote: up
to two quotes of the run belong to the string. -/
def closeLong? (quote : Char) (read t : Text) : Option (Text × Text) := do
  let t ← after? [quote, quote] t
  let extra := t.takeWhile (· == quote)
  if extra.length ≤ 2 then return ((extra ++ read).reverse, t.drop extra.length) else none

def readLongBasic (skip : Nat) (read : Text) : Text → Option (Text × Text)
  | [] => none
  | c :: t =>
    match skip with
    | skip + 1 => readLongBasic skip read t
    | 0 =>
      if c = '"' then
        if ['"', '"'].isPrefixOf t then closeLong? '"' read t else readLongBasic 0 (c :: read) t
      else if c = '\\' then
        if startsLine (t.dropWhile isSpace) then readLongBasic (gapLength t) read t
        else
          match escape? t with
          | some (e, used) => readLongBasic used (e :: read) t
          | none => none
      else if c = '\n' then readLongBasic 0 ('\n' :: read) t
      else if c = '\r' then
        if ['\n'].isPrefixOf t then readLongBasic 1 ('\n' :: read) t else none
      else if isPlain c then readLongBasic 0 (c :: read) t
      else none

def readLongLiteral (skip : Nat) (read : Text) : Text → Option (Text × Text)
  | [] => none
  | c :: t =>
    match skip with
    | skip + 1 => readLongLiteral skip read t
    | 0 =>
      if c = '\'' then
        if ['\'', '\''].isPrefixOf t then closeLong? '\'' read t
        else readLongLiteral 0 (c :: read) t
      else if c = '\n' then readLongLiteral 0 ('\n' :: read) t
      else if c = '\r' then
        if ['\n'].isPrefixOf t then readLongLiteral 1 ('\n' :: read) t else none
      else if isPlain c then readLongLiteral 0 (c :: read) t
      else none

def dropLineEnd : Text → Text
  | '\n' :: t => t
  | '\r' :: '\n' :: t => t
  | t => t

def readString? : Text → Option (Text × Text)
  | '"' :: '"' :: '"' :: t => readLongBasic 0 [] (dropLineEnd t)
  | '"' :: t => readBasic 0 [] t
  | '\'' :: '\'' :: '\'' :: t => readLongLiteral 0 [] (dropLineEnd t)
  | '\'' :: t => readLiteral [] t
  | _ => none

end LazyFields.Toml
