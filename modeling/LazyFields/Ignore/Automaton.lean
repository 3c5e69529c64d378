import LazyFields.Ignore.Expression

/-!
# The size of automata

A list of globs is matched by one automaton, and by another one that reads paths from their ends.
Both have a size in bytes: each state takes the same space, and the ways out of a state that has
several of them come on top.
-/
namespace LazyFields.Ignore.Expression

def stateSize : Nat := 32

def stepSize : Nat := 8

def jumpSize : Nat := 4

def forkSize (branches : Nat) : Nat :=
  if branches ≤ 1 then 0 else 2 * stateSize + jumpSize * branches

/-- The words of a list with their first bytes taken off, gathered by these bytes. -/
def byFirst (words : List (List UInt8)) : List (UInt8 × List (List UInt8)) :=
  let firsts := (words.filterMap List.head?).eraseDups
  firsts.map fun b => (b, words.filterMap fun
    | c :: word => if b = c then some word else none
    | [] => none)

def stretches (words : List (List UInt8)) : List (List (List UInt8)) :=
  words.foldr
    (fun word parts =>
      match word, parts with
      | [], _ => [] :: parts
      | _, [] => [[word]]
      | _, part :: parts => (word :: part) :: parts)
    [[]]

/-- The size of the tree of a list of words, in which words share what they begin with as far as
no word ends there.  The fuel is the length of the longest word. -/
def treeSize : (fuel : Nat) → List (List UInt8) → Nat
  | 0, _ => 0
  | fuel + 1, words =>
    if words.all List.isEmpty then 0
    else
      let later := words.dropWhile List.isEmpty
      let ends := later.countP List.isEmpty + (if later.length < words.length then 1 else 0)
      let parts := ((stretches later).filter (!·.isEmpty)).map byFirst
      let steps := parts.map fun part =>
        stateSize + (if part.length = 1 then 0 else stepSize * part.length) +
          (part.map fun (_, rests) => treeSize fuel rests).sum
      stateSize + jumpSize * (ends + parts.length) + steps.sum

def word? : Expression → Option (List UInt8)
  | .bytes bs => some bs
  | _ => none

mutual

/-- The size of the automaton of an expression.  A choice between words is a tree of them, read in
the direction of the automaton. -/
def size (backward : Bool) : Expression → Nat
  | .edge => stateSize
  | .bytes bs => stateSize * bs.length
  | .oneOf ranges => 2 * stateSize + stepSize * ranges.length
  | .optional part => 2 * stateSize + 2 * jumpSize + size backward part
  | .many part => stateSize + 2 * jumpSize + size backward part
  | .row parts => if parts.isEmpty then stateSize else sizes backward parts
  | .choice branches =>
    match branches.mapM word? with
    | some words =>
      let words := if backward then words.map List.reverse else words
      stateSize + treeSize ((words.map List.length).foldl max 0 + 1) words
    | none => forkSize branches.length + sizes backward branches

def sizes (backward : Bool) : List Expression → Nat
  | [] => 0
  | part :: parts => size backward part + sizes backward parts

end

/-- The size of the automaton of a list of expressions.  Read forward, it also marks where each of
them begins and ends. -/
def automatonSize (backward : Bool) (es : List Expression) : Nat :=
  let marks := stateSize * (if backward then 1 else 3)
  es.foldl (fun n e => n + marks + e.size backward) (stateSize + forkSize es.length)

end LazyFields.Ignore.Expression
