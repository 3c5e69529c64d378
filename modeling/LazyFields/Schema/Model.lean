import LazyFields.NameMap
import LazyFields.Naming
import LazyFields.Schema.Nesting
import LazyFields.Text.Lines

/-!
# The schema model

What is kept of a schema: the names of its enums and, for each top-level message that is closed,
the fields of message type declared directly in its body that are not marked lazy yet.
-/
namespace LazyFields.Schema
open Text

def lazyMarker : Text := "[lazy = true]".toList

def repeatedKeyword : Text := "repeated ".toList

/-- The types that are no messages. -/
def primitiveTypes : List Text :=
  ["string", "int32", "int64", "uint32", "uint64", "sint32", "sint64", "fixed32", "fixed64",
   "sfixed32", "sfixed64", "bool", "float", "double", "bytes"].map String.toList

def isPrimitive (type : Text) : Bool := primitiveTypes.contains type

/-- A field of message type and the number of its line, counted from 1. -/
structure Field where
  name : Text
  type : Text
  ordinal : Nat
  line : Nat
deriving DecidableEq, Repr

structure Model where
  enums : NameSet
  messages : NameMap (List Field)
deriving DecidableEq

def enumNames (content : Text) : NameSet :=
  .ofList ((lines content).filterMap fun line => enumOpener? (trim line))

/-- The names of the messages that a line of the schema opens, at any depth. -/
def messageNames (content : Text) : NameSet :=
  .ofList ((lines content).filterMap fun line => messageOpener? (trim line))

/-- A type is read as a message type when the schema opens a message of this name or the name ends
as message types do, and it is neither primitive nor an enum. -/
def isMessageType (declared enums : NameSet) (rules : NamingRules) (type : Text) : Bool :=
  (decide (type ∈ declared) || rules.hasMessageSuffix type) && !isPrimitive type &&
    !decide (type ∈ enums)

/-- The field that a trimmed line of a body declares, if it can be marked lazy. -/
def lazyable? (isMessage : Text → Bool) (number : Nat) (line : Text) : Option Field :=
  if lazyMarker.holds line || repeatedKeyword.isPrefixOf line then none
  else
    match fieldDeclaration? line with
    | none => none
    | some d => if isMessage d.type then some ⟨d.name, d.type, d.ordinal, number⟩ else none

/-- What is known after some lines: where the next one stands, the fields of the open message,
last one first, and the messages closed. -/
structure Reading where
  nesting : Nesting := .outside
  fields : List Field := []
  messages : NameMap (List Field) := ∅

namespace Reading

/-- Reads one numbered line.  A message that is closed replaces an earlier one of its name. -/
def push (isMessage : Text → Bool) (r : Reading) (numbered : Text × Nat) : Reading :=
  let line := trim numbered.1
  let (role, nesting) := r.nesting.step line
  match role with
  | .outside => { r with nesting }
  | .opened _ => { r with nesting, fields := [] }
  | .closed m => ⟨nesting, [], r.messages.insert m r.fields.reverse⟩
  | .body depth =>
    if depth = 1 then
      match lazyable? isMessage numbered.2 line with
      | some f => { r with nesting, fields := f :: r.fields }
      | none => { r with nesting }
    else { r with nesting }

end Reading

def readMessages (content : Text) (enums : NameSet) (rules : NamingRules) :
    NameMap (List Field) :=
  let isMessage := isMessageType (messageNames content) enums rules
  (((lines content).zipIdx 1).foldl (Reading.push isMessage) {}).messages

namespace Model

def read (content : Text) (rules : NamingRules) : Model :=
  let enums := enumNames content
  ⟨enums, readMessages content enums rules⟩

def isEnum (model : Model) (name : Text) : Bool := decide (name ∈ model.enums)

def fields? (model : Model) (message : Text) : Option (List Field) := model.messages.find? message

end Model
end LazyFields.Schema
