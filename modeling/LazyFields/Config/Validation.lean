import LazyFields.Config.Basic
import LazyFields.Fault
import LazyFields.Text.Blank

/-!
# Valid configurations

An option that is set must not be blank where blanks mean nothing.  The checks come in a fixed
order, and the first that fails names its field.
-/
namespace LazyFields
open Text

/-- Why there is no configuration: the file cannot be read, it is no TOML document of the right
shape, or a field has no sensible value. -/
inductive ConfigError where
  | unreadable (path : Text)
  | malformed (path detail : Text)
  | invalid (field reason : Text)
deriving DecidableEq, Repr

instance : Fault ConfigError where
  code _ := "CONFIG_ERROR".toList
  message
    | .unreadable path => "Config file not found: ".toList ++ path
    | .malformed path detail =>
      "Config parse error in ".toList ++ path ++ ": ".toList ++ detail
    | .invalid field reason =>
      "Config validation failed for ".toList ++ field ++ ": ".toList ++ reason

namespace Config

def isVoid (t : Text) : Bool := (trim t).isEmpty

def firstFault? (c : Config) : Option (Text × Text) :=
  let empty := "must not be empty".toList
  if c.scan.qualifier.any isVoid then some ("scan.namespace".toList, empty)
  else if c.scan.extensions.any isVoid then
    some ("scan.extensions".toList, "entries must not be empty".toList)
  else if c.scan.maxFileSize = some 0 then
    some ("scan.max_file_size".toList, "must be greater than 0".toList)
  else if c.naming.messageSuffix = some [] then some ("naming.message_suffix".toList, empty)
  else if c.naming.responseSuffix = some [] then some ("naming.response_suffix".toList, empty)
  else if c.schema.path.any isVoid then some ("schema.path".toList, empty)
  else none

def validate (c : Config) : Except ConfigError Config :=
  match c.firstFault? with
  | none => .ok c
  | some (field, reason) => .error (.invalid field reason)

end Config
end LazyFields
