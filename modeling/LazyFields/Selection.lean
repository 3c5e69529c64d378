import LazyFields.Accessor
import LazyFields.Candidates
import LazyFields.Schema.Model

/-!
# Selection of candidates

A field is decided upon when its message is used and is no enum.  It is a candidate for the marker
when no source calls its accessor.
-/
namespace LazyFields
open Schema

/-- The outcome for one field: its accessor is called or not. -/
structure Decision where
  message : Text
  field : Text
  type : Text
  used : Bool
deriving DecidableEq, Repr

def messageTypes (types : NameSet) (model : Model) : NameSet :=
  types.filter fun name => !model.isEnum name

def decideField (accessors : NameSet) (message : Text) (f : Field) : Decision :=
  ⟨message, f.name, f.type, decide (accessorName f.name ∈ accessors)⟩

/-- The decisions on the fields of all used messages, in ascending order of the messages and in
the order of declaration of the fields. -/
def decisions (types : NameSet) (model : Model) (accessors : NameSet) : List Decision :=
  (messageTypes types model).toList.flatMap fun message =>
    ((model.fields? message).getD []).map (decideField accessors message)

def Candidates.ofDecisions (ds : List Decision) : Candidates :=
  ds.foldl (fun c d => if d.used then c else c.insert d.message d.field) ∅

def select (types : NameSet) (model : Model) (accessors : NameSet) : Candidates :=
  .ofDecisions (decisions types model accessors)

section Telling
variable {σ : Type} (tell : σ → Decision → σ) (model : Model) (accessors : NameSet)

/-- Decides on a field of a message, tells the listener, and keeps the field if it is not used. -/
def tellField (message : Text) (s : σ × Candidates) (f : Field) : σ × Candidates :=
  let d := decideField accessors message f
  (tell s.1 d, if d.used then s.2 else s.2.insert message f.name)

/-- Decides on the fields of a message.  A message that the schema does not keep is skipped. -/
def tellMessage (s : σ × Candidates) (message : Text) : σ × Candidates :=
  match model.fields? message with
  | none => s
  | some fields => fields.foldl (tellField tell accessors message) s

/-- The selection in one pass: the listener afterwards and the candidates. -/
def selectTelling (s : σ) (types : NameSet) : σ × Candidates :=
  (messageTypes types model).toList.foldl (tellMessage tell model accessors) (s, ∅)

end Telling

end LazyFields
