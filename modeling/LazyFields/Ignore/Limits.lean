import LazyFields.Ignore.Automaton
import LazyFields.Ignore.Written

/-!
# Limits of globs

Globs that are not matched by comparing texts are matched by automata: each one that demands an
extension by its own, all others that look at names only by a common one, and the rest by another.
A list of globs is refused as a whole if one of its expressions is nested too deep or if one of its
automata is too large.
-/
namespace LazyFields.Ignore
open Text

def maxNesting : Nat := 250

def maxAutomatonSize : Nat := 10 * 1024 * 1024

/-- Why a list of globs is refused: an expression is nested too deep, given by its number among
those of its automaton, or the automaton is too large. -/
inductive LimitCause where
  | tooDeep (index : Nat)
  | tooLarge
deriving DecidableEq, Repr

def LimitCause.message : LimitCause → Text
  | tooDeep index => "error parsing pattern ".toList ++ ofNat index
  | tooLarge => "error building NFA".toList

/-- A refusal of a list of globs; it names the glob that has an automaton of its own. -/
structure LimitError where
  glob? : Option Glob
  cause : LimitCause

def LimitError.message (e : LimitError) : Text :=
  match e.glob? with
  | none => e.cause.message
  | some glob => "error parsing glob '".toList ++ glob.written ++ "': ".toList ++ e.cause.message

def Token.isLiteral : Token → Bool
  | .literal _ => true
  | _ => false

def Token.isExtensionLiteral : Token → Bool
  | .literal c => c != '.' && c != '/'
  | _ => false

def Token.staysInName : Token → Bool
  | .literal c => c != '/'
  | .anyByte | .anyRun => true
  | _ => false

namespace Glob

/-- The glob is matched by comparing texts: it is a text, a text behind any directories, an
extension behind any name, or a text before anything. -/
def isPlain (glob : Glob) : Bool :=
  match glob with
  | .leading :: .anyRun :: .literal '.' :: rest => rest.all Token.isExtensionLiteral
  | .leading :: rest => !rest.isEmpty && rest.all Token.isLiteral
  | _ =>
    match glob.reverse with
    | .trailing :: front => front.all Token.isLiteral
    | _ => !glob.isEmpty && glob.all Token.isLiteral

/-- The last tokens of a glob, last one first, are an extension. -/
def endsInExtension : List Token → Bool
  | .literal c :: rest => c == '.' || (c != '/' && endsInExtension rest)
  | _ => false

def demandsExtension (glob : Glob) : Bool := endsInExtension glob.reverse

def isOfNames : Glob → Bool
  | .leading :: rest => !rest.isEmpty && rest.all Token.staysInName
  | _ => false

def checkTogether (globs : List Glob) : Except LimitCause Unit :=
  match globs.findIdx? fun glob => decide (maxNesting < glob.nesting) with
  | some index => .error (.tooDeep index)
  | none =>
    let es := globs.map (·.expression maxNesting)
    if !es.isEmpty && [false, true].any fun backward =>
        decide (maxAutomatonSize < Expression.automatonSize backward es) then .error .tooLarge
    else .ok ()

def checkLimits (globs : List Glob) : Except LimitError Unit := do
  let (demanding, rest) := (globs.filter (!·.isPlain)).partition (·.demandsExtension)
  demanding.forM fun glob => (checkTogether [glob]).mapError (⟨some glob, ·⟩)
  let (ofNames, others) := rest.partition (·.isOfNames)
  [ofNames, others].forM fun globs => (checkTogether globs).mapError (⟨none, ·⟩)

end Glob
end LazyFields.Ignore
