import LazyFields.Ignore.Limits
import LazyFields.Text.Blank

/-!
# Ignore patterns

A line of an ignore file is a glob with marks around it: an exclamation mark before a pattern
that brings files back, a slash in front of one that counts from the directory of the file, and a
slash at the end of one that is for directories only.
-/
namespace LazyFields.Ignore
open Text

structure Pattern where
  restores : Bool
  directoryOnly : Bool
  glob : Glob

structure PatternError where
  line : Text
  cause : GlobError

def PatternError.message (e : PatternError) : Text :=
  "error parsing glob '".toList ++ e.line ++ "': ".toList ++ e.cause.message

inductive Verdict where
  | hidden
  | restored
deriving DecidableEq, Repr

namespace Pattern

/-- The glob of a pattern without its marks.  One that names no directory matches at any depth,
and one that ends in two stars matches what is inside a directory but not the directory. -/
def anchor (fromHere : Bool) (t : Text) : Text :=
  let t :=
    if fromHere || t.contains '/' || t == ['*', '*'] then t else '*' :: '*' :: '/' :: t
  if ['/', '*', '*'].isSuffixOf t then t ++ ['/', '*'] else t

def read (lenient : Bool) (line : Text) : Except PatternError (Option Pattern) :=
  let line := if ['\\', ' '].isSuffixOf line then line else trimEnd line
  if line.head? = some '#' ∨ line.isEmpty = true then .ok none
  else
    let (restores, fromHere, t) :=
      match line with
      | '\\' :: '!' :: t => (false, false, '!' :: t)
      | '\\' :: '#' :: t => (false, false, '#' :: t)
      | '!' :: '/' :: t => (true, true, t)
      | '!' :: t => (true, false, t)
      | '/' :: t => (false, true, t)
      | t => (false, false, t)
    let directoryOnly := t.getLast? == some '/'
    let t :=
      if directoryOnly then
        let t := t.dropLast
        if t.getLast? == some '\\' then t.dropLast else t
      else t
    match Glob.read lenient (anchor fromHere t) with
    | .ok glob => .ok (some ⟨restores, directoryOnly, glob⟩)
    | .error cause => .error ⟨line, cause⟩

/-- The pattern of files to exclude.  An exclamation mark is put before it, so that no mark of its
own is read but the slashes, and a bracket without an end is an error. -/
def readExcluded (t : Text) : Except PatternError (Option Pattern) := read false ('!' :: t)

def checkLimits (patterns : List Pattern) : Except LimitError Unit :=
  Glob.checkLimits (patterns.map (·.glob))

def applies (p : Pattern) (path : List UInt8) (isDirectory : Bool) : Bool :=
  (!p.directoryOnly || isDirectory) && p.glob.isMatch path

end Pattern

/-- What a list of patterns says about a path: the last pattern that applies decides. -/
def verdict? (patterns : List Pattern) (path : List UInt8) (isDirectory : Bool) :
    Option Verdict :=
  (patterns.reverse.find? (·.applies path isDirectory)).map fun p =>
    if p.restores then .restored else .hidden

end LazyFields.Ignore
