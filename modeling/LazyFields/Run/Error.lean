import LazyFields.Config.Validation
import LazyFields.Scan.Error
import LazyFields.Schema.Error

/-!
# Errors of a run
-/
namespace LazyFields

inductive RunError where
  | scan (e : ScanError)
  | schema (e : SchemaError)
  | config (e : ConfigError)
deriving DecidableEq, Repr

instance : Fault RunError where
  code
    | .scan e => Fault.code e
    | .schema e => Fault.code e
    | .config e => Fault.code e
  message
    | .scan e => "Scan error: ".toList ++ Fault.message e
    | .schema e => Fault.message e
    | .config e => "Configuration error: ".toList ++ Fault.message e

namespace RunError

def isSchemaMissing : RunError → Bool
  | .schema (.missing _) => true
  | _ => false

/-- The message of the error behind this one, if there is one. -/
def cause? : RunError → Option Text
  | .scan e => some (Fault.message e)
  | .schema (.missing _) => none
  | .schema (.read _ cause) => some cause.message
  | .schema (.write _ cause) => some cause.message
  | .config e => some (Fault.message e)

end RunError
end LazyFields
