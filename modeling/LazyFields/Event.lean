import LazyFields.Selection

/-!
# Events of a run

A run tells what it does in a sequence of events.
-/
namespace LazyFields

inductive Event where
  | started (root schemaPath : Text) (dryRun : Bool)
  | scanned (files skipped accessors types : Nat)
  | enumsRead (count : Nat)
  | typesFiltered (count : Nat)
  | messagesRead (count : Nat)
  | decided (d : Decision)
  | selected (total : Nat)
deriving DecidableEq, Repr

end LazyFields
