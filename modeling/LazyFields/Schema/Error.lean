import LazyFields.Fault

/-!
# Errors of the schema file
-/
namespace LazyFields

/-- Why the schema file is of no use: it is not there, or it cannot be read or written. -/
inductive SchemaError where
  | missing (path : Text)
  | read (path : Text) (cause : SystemError)
  | write (path : Text) (cause : SystemError)
deriving DecidableEq, Repr

instance : Fault SchemaError where
  code
    | .missing _ => "SCHEMA_NOT_FOUND".toList
    | .read .. | .write .. => "SCHEMA_IO_ERROR".toList
  message
    | .missing path => "Proto file not found: ".toList ++ path
    | .read path cause => "Failed to read ".toList ++ path ++ ": ".toList ++ cause.message
    | .write path cause => "Failed to write ".toList ++ path ++ ": ".toList ++ cause.message

end LazyFields
