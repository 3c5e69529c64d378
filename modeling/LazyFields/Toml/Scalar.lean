import LazyFields.Text.Digit
import LazyFields.Toml.Value

/-!
# Booleans, numbers and dates

These values are written without quotes, so a whole row of letters, digits and signs is cut off
first and then judged by the grammar of each kind.  A date and a time of day may be joined by a
blank.
-/
namespace LazyFields.Toml
open Text

def isScalarChar (c : Char) : Bool :=
  c.isAlphanum || c == '_' || c == '+' || c == '-' || c == '.' || c == ':'

/-- The digits of a number without the underscores, each of which must stand between two
digits. -/
def digits? (isDigit : Char → Bool) (t : Text) : Option Text :=
  let groups := splitOn '_' t
  if groups.all fun g => !g.isEmpty && g.all isDigit then some groups.flatten else none

def splitSign : Text → Bool × Text
  | '-' :: t => (true, t)
  | '+' :: t => (false, t)
  | t => (false, t)

/-- The digits of a decimal number: no zero leads but a single one. -/
def decimal? (t : Text) : Option Text := do
  let ds ← digits? Char.isDigit t
  if ds.head? = some '0' ∧ ds ≠ ['0'] then none else return ds

def inBase (base : Nat) (ds : Text) : Nat :=
  ds.foldl
    (fun n c =>
      base * n +
        (if c.isDigit then c.toNat - '0'.toNat
        else if c.isUpper then c.toNat - 'A'.toNat + 10
        else c.toNat - 'a'.toNat + 10))
    0

def isHex (c : Char) : Bool := c.isDigit || ('a' ≤ c && c ≤ 'f') || ('A' ≤ c && c ≤ 'F')

def isOctal (c : Char) : Bool := '0' ≤ c && c ≤ '7'

def isBinary (c : Char) : Bool := c == '0' || c == '1'

def bounded? (n : Int) : Option Int :=
  if Int64.minValue.toInt ≤ n ∧ n ≤ Int64.maxValue.toInt then some n else none

def integer? : Text → Option Int
  | '0' :: 'x' :: t => do bounded? (inBase 16 (← digits? isHex t))
  | '0' :: 'o' :: t => do bounded? (inBase 8 (← digits? isOctal t))
  | '0' :: 'b' :: t => do bounded? (inBase 2 (← digits? isBinary t))
  | t =>
    let (negative, t) := splitSign t
    do
      let n : Int := inBase 10 (← decimal? t)
      bounded? (if negative then -n else n)

/-- The decimal number `mantissa · 10 ^ exponent` rounds to no finite double: it is at least
`2 ^ 1024 - 2 ^ 970`. -/
def exceedsDouble (mantissa : Nat) (exponent : Int) : Bool :=
  let size : Int := (Nat.toDigits 10 mantissa).length + exponent
  if mantissa = 0 ∨ size < 309 then false
  else if 309 < size then true
  else
    let bound := Nat.pow 2 1024 - Nat.pow 2 970
    if 0 ≤ exponent then decide (bound ≤ mantissa * Nat.pow 10 exponent.toNat)
    else decide (bound * Nat.pow 10 (-exponent).toNat ≤ mantissa)

/-- The row writes a float.  A positive one that exceeds every finite double is refused. -/
def isFloat (t : Text) : Bool :=
  let (negative, t) := splitSign t
  if t = "inf".toList ∨ t = "nan".toList then true
  else
    let (number, exponent?) :=
      match t.dropWhile fun c => c != 'e' && c != 'E' with
      | [] => (t, none)
      | _ :: e => (t.takeWhile fun c => c != 'e' && c != 'E', some e)
    let (whole, fraction?) :=
      match number.dropWhile (· != '.') with
      | [] => (number, none)
      | _ :: f => (number.takeWhile (· != '.'), some f)
    if exponent?.isNone && fraction?.isNone then false
    else
      let (down, e) := splitSign (exponent?.getD ['0'])
      match decimal? whole, digits? Char.isDigit (fraction?.getD ['0']),
          digits? Char.isDigit e with
      | some whole, some fraction, some e =>
        let e : Int := if down then -(inBase 10 e : Int) else inBase 10 e
        negative || !exceedsDouble (inBase 10 (whole ++ fraction)) (e - fraction.length)
      | _, _, _ => false

def fixedDigits? (n : Nat) (t : Text) : Option (Nat × Text) :=
  let ds := t.take n
  if ds.length = n ∧ ds.all Char.isDigit = true then some (inBase 10 ds, t.drop n) else none

def daysInMonth (year month : Nat) : Nat :=
  if month = 2 then
    if year % 4 = 0 ∧ (year % 100 ≠ 0 ∨ year % 400 = 0) then 29 else 28
  else if month = 4 ∨ month = 6 ∨ month = 9 ∨ month = 11 then 30
  else 31

def afterDay? (t : Text) : Option Text := do
  let (year, t) ← fixedDigits? 4 t
  let t ← after? ['-'] t
  let (month, t) ← fixedDigits? 2 t
  let t ← after? ['-'] t
  let (day, t) ← fixedDigits? 2 t
  if 1 ≤ month ∧ month ≤ 12 ∧ 1 ≤ day ∧ day ≤ daysInMonth year month then return t else none

def afterTime? (t : Text) : Option Text := do
  let (hour, t) ← fixedDigits? 2 t
  let t ← after? [':'] t
  let (minute, t) ← fixedDigits? 2 t
  let t ← after? [':'] t
  let (second, t) ← fixedDigits? 2 t
  if ¬(hour ≤ 23 ∧ minute ≤ 59 ∧ second ≤ 60) then none
  match t with
  | '.' :: f => if (f.takeWhile Char.isDigit).isEmpty then none else return f.dropWhile Char.isDigit
  | t => return t

/-- The row is nothing, or the distance from universal time. -/
def isOffset (t : Text) : Bool :=
  match t with
  | [] => true
  | ['Z'] => true
  | ['z'] => true
  | c :: t =>
    if c = '+' ∨ c = '-' then
      match fixedDigits? 2 t with
      | some (hour, ':' :: t) =>
        match fixedDigits? 2 t with
        | some (minute, []) => decide (hour ≤ 23) && decide (minute ≤ 59)
        | _ => false
      | _ => false
    else false

def isTimeWithOffset (t : Text) : Bool :=
  match afterTime? t with
  | some rest => isOffset rest
  | none => false

/-- The row is a date, a time of day, or both. -/
def isDate (t : Text) : Bool :=
  match afterDay? t with
  | some [] => true
  | some (c :: time) => (c == 'T' || c == 't') && isTimeWithOffset time
  | none => afterTime? t == some []

def scalarOfRow? (row : Text) : Option Value :=
  if row = "true".toList then some (.boolean true)
  else if row = "false".toList then some (.boolean false)
  else if isDate row then some (.date row)
  else if isFloat row then some (.float row)
  else (integer? row).map .integer

def readScalar? (t : Text) : Option (Value × Text) := do
  let row := t.takeWhile isScalarChar
  let rest := t.dropWhile isScalarChar
  match afterDay? row, rest with
  | some [], ' ' :: time =>
    match time with
    | c :: _ =>
      if c.isDigit then
        let clock := time.takeWhile isScalarChar
        if isTimeWithOffset clock then
          return (.date (row ++ ' ' :: clock), time.dropWhile isScalarChar)
        else none
      else return (.date row, rest)
    | [] => return (.date row, rest)
  | _, _ => return (← scalarOfRow? row, rest)

end LazyFields.Toml
