import LazyFields.Text.Utf8

/-!
# Globs

A glob is matched against the bytes of a path.  A single star and a question mark stay within one
name; two stars between slashes, at the start or at the end stand for any names.
-/
namespace LazyFields.Ignore
open Text

inductive Token where
  /-- This character. -/
  | literal (c : Char)
  /-- One byte other than a slash. -/
  | anyByte
  /-- Any bytes other than slashes. -/
  | anyRun
  /-- Nothing, or anything up to and including a slash. -/
  | leading
  /-- A slash and anything. -/
  | trailing
  /-- A slash, or a slash and anything up to and including another one. -/
  | between
  /-- One byte within the ranges, or one outside them. -/
  | oneOf (negated : Bool) (ranges : List (Char × Char))
  /-- One of several sequences. -/
  | choice (branches : List (List Token))

abbrev Glob := List Token

inductive GlobError where
  | unclosedClass
  | invalidRange (first last : Char)
  | unopenedChoice
  | unclosedChoice
  | danglingEscape
deriving DecidableEq, Repr

def GlobError.message : GlobError → Text
  | unclosedClass => "unclosed character class; missing ']'".toList
  | invalidRange first last => "invalid range; '".toList ++ first :: "' > '".toList ++ [last, '\'']
  | unopenedChoice =>
    "unopened alternate group; missing '\x7b' (maybe escape '\x7d' with '[\x7d]'?)".toList
  | unclosedChoice =>
    "unclosed alternate group; missing '\x7d' (maybe escape '\x7b' with '[\x7b]'?)".toList
  | danglingEscape => "dangling '\\'".toList

namespace Glob

/-- The ranges of a character class behind its opening bracket, and the number of characters up
to and including the closing one; nothing if there is none.  `first` tells that no character of
the class is read yet, and `unfinished` that a range lacks its end. -/
def readRanges (ranges : List (Char × Char)) (first unfinished : Bool) (used : Nat) :
    Text → Except GlobError (Option (List (Char × Char) × Nat))
  | [] => .ok none
  | c :: t =>
    if c = ']' ∧ first = false then
      .ok (some ((if unfinished then ('-', '-') :: ranges else ranges).reverse, used + 1))
    else if c = '-' ∧ first = false ∧ unfinished = false then
      readRanges ranges false true (used + 1) t
    else
      match unfinished, ranges with
      | true, (a, _) :: ranges =>
        if c < a then .error (.invalidRange a c)
        else readRanges ((a, c) :: ranges) false false (used + 1) t
      | _, _ => readRanges ((c, c) :: ranges) false false (used + 1) t

def readClass (t : Text) : Except GlobError (Option (Token × Nat)) := do
  let negated := t.head? == some '!' || t.head? == some '^'
  match ← readRanges [] true false 0 (if negated then t.tail else t) with
  | some (ranges, used) =>
    return some (.oneOf negated ranges, if negated then used + 1 else used)
  | none => return none

/-- The branches of a choice that are complete, last one first, and the tokens of the current
branch, last one first. -/
structure Level where
  done : List Glob := []
  current : Glob := []

/-- What has been read of a glob: the innermost level, the levels around it, and whether a bracket
without an end was met, after which brackets are literal. -/
structure Progress where
  level : Level := {}
  outer : List Level := []
  bracketsLiteral : Bool := false

namespace Progress

def push (p : Progress) (token : Token) : Progress :=
  { p with level := { p.level with current := token :: p.level.current } }

/-- Two stars behind the character `prev?` and before the text `t`, with the number of further
characters that belong to them. -/
def pushStars (p : Progress) (prev? : Option Char) (t : Text) : Progress × Nat :=
  let two := (p.push .anyRun).push .anyRun
  let atEnd := t.isEmpty
  let atSlash := t.head? == some '/'
  let inChoice := !p.outer.isEmpty
  match p.level.current with
  | [] => if atEnd || atSlash then (p.push .leading, if atSlash then 1 else 0) else (two, 0)
  | last :: before =>
    if !(prev? == some '/' || (inChoice && (prev? == some ',' || prev? == some '\x7b'))) then
      (two, 0)
    else
      let replace (token : Token) : Progress :=
        let token :=
          match last with
          | .leading => .leading
          | .trailing => .trailing
          | _ => token
        { p with level := { p.level with current := token :: before } }
      if atEnd || (inChoice && (t.head? == some ',' || t.head? == some '\x7d')) then
        (replace .trailing, 0)
      else if atSlash then (replace .between, 1)
      else (two, 0)

def close (p : Progress) : Except GlobError Progress :=
  match p.outer with
  | [] => .error .unopenedChoice
  | level :: outer =>
    let branches := (p.level.current :: p.level.done).reverse.map List.reverse
    .ok { p with
      level := { level with current := .choice branches :: level.current }, outer }

end Progress

/-- Reads a glob; `skip` characters of a token are already read, and `prev?` is the character
before the text.  If `lenient`, a bracket without an end is literal. -/
def readFrom (lenient : Bool) (p : Progress) (skip : Nat) (prev? : Option Char) :
    Text → Except GlobError Progress
  | [] => .ok p
  | c :: t =>
    match skip with
    | skip + 1 => readFrom lenient p skip (some c) t
    | 0 =>
      if c = '?' then readFrom lenient (p.push .anyByte) 0 (some c) t
      else if c = '*' then
        match t with
        | '*' :: rest =>
          let (p, used) := p.pushStars prev? rest
          readFrom lenient p (used + 1) (some c) t
        | _ => readFrom lenient (p.push .anyRun) 0 (some c) t
      else if c = '[' ∧ p.bracketsLiteral = false then
        match readClass t with
        | .error e => .error e
        | .ok (some (token, used)) => readFrom lenient (p.push token) used (some c) t
        | .ok none =>
          if lenient then
            readFrom lenient { p.push (.literal '[') with bracketsLiteral := true } 0 (some c) t
          else .error .unclosedClass
      else if c = '\x7b' then
        readFrom lenient { p with level := {}, outer := p.level :: p.outer } 0 (some c) t
      else if c = '\x7d' then
        match p.close with
        | .error e => .error e
        | .ok p => readFrom lenient p 0 (some c) t
      else if c = ',' ∧ p.outer ≠ [] then
        readFrom lenient { p with level := ⟨p.level.current :: p.level.done, []⟩ } 0 (some c) t
      else if c = '\\' then
        match t with
        | [] => .error .danglingEscape
        | e :: _ => readFrom lenient (p.push (.literal e)) 1 (some c) t
      else readFrom lenient (p.push (.literal c)) 0 (some c) t

def read (lenient : Bool) (t : Text) : Except GlobError Glob := do
  let p ← readFrom lenient {} 0 none t
  if p.outer.isEmpty then return p.level.current.reverse else throw .unclosedChoice

def bytesOf (c : Char) : List UInt8 := (Utf8.encode [c]).data.toList

abbrev ByteRanges := List (UInt8 × UInt8)

def ByteRanges.has (ranges : ByteRanges) (b : UInt8) : Bool :=
  ranges.any fun (low, high) => low ≤ b && b ≤ high

/-- The bytes in a range of a class.  Its ends are read byte by byte: only the last byte of the
first character and the first byte of the last one bound a range. -/
def byteRanges (range : Char × Char) : ByteRanges :=
  let low := bytesOf range.1
  let high := bytesOf range.2
  if range.1 = range.2 then low.map fun b => (b, b)
  else
    low.dropLast.map (fun b => (b, b)) ++
      (low.getLastD 0, high.headD 0) :: high.tail.map fun b => (b, b)

def slash : UInt8 := 0x2F

/-- The places in a path, from before its first byte to behind its last one.  Those that a glob
read so far can lead to are reached. -/
abbrev Reached := List Bool

def afterByte (p : UInt8 → Bool) (path : List UInt8) (r : Reached) : Reached :=
  false :: List.zipWith (fun b here => here && p b) path r

/-- The places behind rows of bytes of a class that start at reached places; `before` tells that
such a row ends at the first place. -/
def afterRun (p : UInt8 → Bool) (before : Bool) : List UInt8 → Reached → Reached
  | b :: path, here :: r => (here || before) :: afterRun p ((here || before) && p b) path r
  | _, r => r.map (· || before)

/-- The reached places, and the places behind a slash that comes later; `earlier` tells that a
reached place comes before the first place, and `slashed` that a slash stands right before it. -/
def afterNames (earlier slashed : Bool) : List UInt8 → Reached → Reached
  | b :: path, here :: r =>
    (here || (earlier && slashed)) :: afterNames (earlier || here) (b == slash) path r
  | _, r => r.map (· || (earlier && slashed))

mutual

def isVoidToken : Token → Bool
  | .choice branches => areVoid branches
  | _ => false

def isVoid : Glob → Bool
  | [] => true
  | token :: tokens => isVoidToken token && isVoid tokens

def areVoid : List Glob → Bool
  | [] => true
  | branch :: branches => isVoid branch && areVoid branches

end

mutual

def afterToken (path : List UInt8) : Token → Reached → Reached
  | .literal c, r => (bytesOf c).foldl (fun r b => afterByte (· == b) path r) r
  | .anyByte, r => afterByte (· != slash) path r
  | .anyRun, r => afterRun (· != slash) false path r
  | .leading, r => afterNames false false path r
  | .trailing, r => afterRun (fun _ => true) false path (afterByte (· == slash) path r)
  | .between, r => afterNames false false path (afterByte (· == slash) path r)
  | .oneOf negated ranges, r =>
    let members : ByteRanges := ranges.flatMap byteRanges
    afterByte (members.has · != negated) path r
  | .choice branches, r => if areVoid branches then r else afterBranches path branches r

def afterTokens (path : List UInt8) : Glob → Reached → Reached
  | [], r => r
  | token :: tokens, r => afterTokens path tokens (afterToken path token r)

/-- The places that some branch of a choice leads to from reached ones.  A void branch beside others
leads nowhere. -/
def afterBranches (path : List UInt8) : List Glob → Reached → Reached
  | [], r => r.map fun _ => false
  | branch :: branches, r =>
    let others := afterBranches path branches r
    if isVoid branch then others
    else List.zipWith (· || ·) (afterTokens path branch r) others

end

/-- The glob matches the whole path.  Two stars alone match everything. -/
def isMatch (glob : Glob) (path : List UInt8) : Bool :=
  match glob with
  | [.leading] => true
  | _ => (afterTokens path glob (true :: path.map fun _ => false)).getLast? == some true

end Glob
end LazyFields.Ignore
