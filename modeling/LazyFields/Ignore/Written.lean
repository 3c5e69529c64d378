import LazyFields.Ignore.Glob

/-!
# Written globs

A glob is written as a regular expression over the bytes of a path.  A choice whose branches are
all void is written as nothing.  How deep the parts of the expression are nested is seen from the
written form: rows, groups, alternatives, repetitions and classes count, single characters do not.
-/
namespace LazyFields.Ignore
open Text

def metaCharacters : List Char :=
  ['\\', '.', '+', '*', '?', '(', ')', '|', '[', ']', '\x7b', '\x7d', '^', '$', '#', '&', '-', '~']

/-- A character as it is written: byte by byte, if it is not ASCII. -/
def writeCharacter (c : Char) : Text :=
  if metaCharacters.contains c then ['\\', c]
  else if c.toNat < 0x80 then [c]
  else (Glob.bytesOf c).flatMap fun b => '\\' :: 'x' :: Nat.toDigits 16 b.toNat

def writeRange (range : Char × Char) : Text :=
  if range.1 = range.2 then writeCharacter range.1
  else writeCharacter range.1 ++ '-' :: writeCharacter range.2

mutual

def Token.written : Token → Text
  | .literal c => writeCharacter c
  | .anyByte => "[^/]".toList
  | .anyRun => "[^/]*".toList
  | .leading => "(?:/?|.*/)".toList
  | .trailing => "/.*".toList
  | .between => "(?:/|/.*/)".toList
  | .oneOf negated ranges =>
    '[' :: (if negated then ['^'] else []) ++ ranges.flatMap writeRange ++ [']']
  | .choice branches =>
    match (writtenBranches branches).filter (!·.isEmpty) with
    | [] => []
    | parts => "(?:".toList ++ List.intercalate ['|'] parts ++ [')']

def writtenTokens : Glob → Text
  | [] => []
  | token :: tokens => token.written ++ writtenTokens tokens

def writtenBranches : List Glob → List Text
  | [] => []
  | branch :: branches => writtenTokens branch :: writtenBranches branches

end

/-- A glob as it is written.  One that matches every path is written without a group. -/
def Glob.written : Glob → Text
  | [.leading] => "(?-u)^.*$".toList
  | glob => "(?-u)^".toList ++ writtenTokens glob ++ ['$']

/-- How many parts are written side by side, and how deep the deepest of them is nested. -/
structure Extent where
  parts : Nat := 0
  nesting : Nat := 0

namespace Extent

def beside (a b : Extent) : Extent := ⟨a.parts + b.parts, max a.nesting b.nesting⟩

/-- The nesting of a row, which counts unless it is a single part. -/
def depth (e : Extent) : Nat := if e.parts ≤ 1 then e.nesting else e.nesting + 1

/-- The alternatives between branches in a group.  Void branches are not written. -/
def group (branches : List Extent) : Extent :=
  match branches.filter (·.parts != 0) with
  | [] => {}
  | [e] => ⟨1, e.depth + 1⟩
  | es => ⟨1, (es.map depth).foldl max 0 + 2⟩

end Extent

mutual

def Token.extent : Token → Extent
  | .literal c => ⟨(Glob.bytesOf c).length, 0⟩
  | .anyByte => ⟨1, 1⟩
  | .anyRun => ⟨1, 2⟩
  | .leading => ⟨1, 4⟩
  | .trailing => ⟨2, 1⟩
  | .between => ⟨1, 4⟩
  | .oneOf _ ranges => ⟨1, if (ranges.flatMap Glob.byteRanges).length ≤ 1 then 1 else 2⟩
  | .choice branches => .group (branchExtents branches)

def tokensExtent : Glob → Extent
  | [] => {}
  | token :: tokens => token.extent.beside (tokensExtent tokens)

def branchExtents : List Glob → List Extent
  | [] => []
  | branch :: branches => tokensExtent branch :: branchExtents branches

end

/-- How deep the parts of a written glob are nested, in the row between the ends of a path. -/
def Glob.nesting (glob : Glob) : Nat := (tokensExtent glob).nesting + 1

end LazyFields.Ignore
