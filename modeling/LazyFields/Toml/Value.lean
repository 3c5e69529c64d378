import LazyFields.Text

/-!
# TOML values

The values of a TOML document.  A table remembers how it came about, because that decides whether
a later line may add to it.  Floats and dates keep their written form, as nothing computes with
them.
-/
namespace LazyFields.Toml

/-- How a table came about: by a header of its own, as a step on the way to a deeper header, as a
step of a dotted key, or between braces. -/
inductive TableForm where
  | header
  | implied
  | dotted
  | inline
deriving DecidableEq, Repr

inductive Value where
  | string (t : Text)
  | integer (n : Int)
  | boolean (b : Bool)
  | float (written : Text)
  | date (written : Text)
  | array (items : List Value)
  | table (form : TableForm) (entries : List (Text × Value))
  | tables (items : List (List (Text × Value)))

/-- The keys of a table with their values, in the order in which they came about. -/
abbrev Entries := List (Text × Value)

end LazyFields.Toml
