import LazyFields.Ignore.Glob

/-!
# Expressions of globs

The regular expression of a glob over bytes, in the form in which its automaton is built: rows in
rows and choices in choices are opened, bytes that follow each other are one part, a choice
between bytes or classes is a class, and what all branches of a choice begin with stands before
the choice.
-/
namespace LazyFields.Ignore

/-- A regular expression.  A class is written with the fewest ranges, in ascending order. -/
inductive Expression where
  | edge
  | bytes (bs : List UInt8)
  | oneOf (ranges : Glob.ByteRanges)
  | optional (part : Expression)
  | many (part : Expression)
  | row (parts : List Expression)
  | choice (branches : List Expression)

namespace Expression

mutual

def same : Expression → Expression → Bool
  | .edge, .edge => true
  | .bytes a, .bytes b => a == b
  | .oneOf a, .oneOf b => a == b
  | .optional a, .optional b => a.same b
  | .many a, .many b => a.same b
  | .row a, .row b => sameParts a b
  | .choice a, .choice b => sameParts a b
  | _, _ => false

def sameParts : List Expression → List Expression → Bool
  | [], [] => true
  | a :: as, b :: bs => a.same b && sameParts as bs
  | _, _ => false

end

def allBytes : List UInt8 := (List.range 256).map UInt8.ofNat

/-- The class of the bytes that pass a test; a single one is written as itself. -/
def classOf (p : UInt8 → Bool) : Expression :=
  let ranges := (allBytes.filter p).foldr
    (fun b ranges =>
      match ranges with
      | [] => [(b, b)]
      | (low, high) :: rest =>
        if b + 1 = low then (b, high) :: rest else (b, b) :: (low, high) :: rest)
    []
  match ranges with
  | [(low, high)] => if low = high then .bytes [low] else .oneOf ranges
  | _ => .oneOf ranges

def inRow (parts : List Expression) : Expression :=
  let opened := parts.flatMap fun
    | .row inner => inner
    | part => [part]
  let joined := opened.foldr
    (fun part rest =>
      match part, rest with
      | .bytes a, .bytes b :: rest => .bytes (a ++ b) :: rest
      | _, _ => part :: rest)
    []
  match joined with
  | [part] => part
  | parts => .row parts

def character? : Expression → Option UInt8
  | .bytes [b] => if b < 0x80 then some b else none
  | _ => none

def ranges? : Expression → Option Glob.ByteRanges
  | .oneOf ranges => some ranges
  | _ => none

/-- The parts in which a row begins like all the others of a list. -/
def sharedParts (parts : List Expression) : List Expression → List Expression
  | [] => parts
  | .row others :: rest =>
    sharedParts (((parts.zip others).takeWhile fun (a, b) => a.same b).map Prod.fst) rest
  | _ :: _ => []

/-- A choice between branches.  A choice that is left when shared parts are taken out of it lies
deeper, so the fuel bounds how deep choices are nested. -/
def choose : (fuel : Nat) → List Expression → Expression
  | 0, branches => .choice branches
  | fuel + 1, branches =>
    let opened := branches.flatMap fun
      | .choice inner => inner
      | branch => [branch]
    match opened with
    | [branch] => branch
    | _ =>
      match opened.mapM character?, opened.mapM ranges? with
      | some bs, _ => classOf bs.contains
      | _, some classes => classOf fun b => classes.any (·.has b)
      | none, none =>
        match opened with
        | .row parts :: others =>
          match sharedParts parts others with
          | [] => .choice opened
          | shared =>
            let rests := opened.map fun
              | .row parts => inRow (parts.drop shared.length)
              | branch => branch
            inRow (shared ++ [choose fuel rests])
        | _ => .choice opened

def anyByte : Expression := classOf fun _ => true

def nameByte : Expression := classOf (· != Glob.slash)

def slash : Expression := .bytes [Glob.slash]

mutual

/-- The expression of a token; the fuel bounds how deep choices are nested. -/
def ofToken (fuel : Nat) : Token → Expression
  | .literal c => .bytes (Glob.bytesOf c)
  | .anyByte => nameByte
  | .anyRun => .many nameByte
  | .leading => .choice [.optional slash, .row [.many anyByte, slash]]
  | .trailing => .row [slash, .many anyByte]
  | .between => .choice [slash, .row [slash, .many anyByte, slash]]
  | .oneOf negated ranges =>
    let members : Glob.ByteRanges := ranges.flatMap Glob.byteRanges
    classOf (members.has · != negated)
  | .choice branches =>
    match ofBranches fuel branches with
    | [] => .row []
    | parts => choose fuel parts

def ofTokens (fuel : Nat) : Glob → List Expression
  | [] => []
  | token :: tokens => ofToken fuel token :: ofTokens fuel tokens

def ofBranches (fuel : Nat) : List Glob → List Expression
  | [] => []
  | branch :: branches =>
    if Glob.isVoid branch then ofBranches fuel branches
    else inRow (ofTokens fuel branch) :: ofBranches fuel branches

end

end Expression

def Glob.expression (fuel : Nat) : Glob → Expression
  | [.leading] => .row [.edge, .many .anyByte, .edge]
  | glob => .inRow (.edge :: Expression.ofTokens fuel glob ++ [.edge])

end LazyFields.Ignore
