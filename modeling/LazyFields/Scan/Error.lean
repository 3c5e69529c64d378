import LazyFields.Fault

/-!
# Errors of a scan

None of them stops a scan; they are noted beside its outcome.
-/
namespace LazyFields

/-- What went wrong in a scan: a file that cannot be read, a directory that cannot be walked, an
ignore pattern or a namespace that is no pattern, or a file that is too large. -/
inductive ScanError where
  | unreadable (path : Text) (cause : SystemError)
  | walk (root detail : Text)
  | ignorePattern (pattern detail : Text)
  | qualifier (qualifier detail : Text)
  | tooLarge (path : Text) (size max : Nat)
deriving DecidableEq, Repr

instance : Fault ScanError where
  code _ := "SCAN_ERROR".toList
  message
    | .unreadable path cause =>
      "IO error scanning ".toList ++ path ++ ": ".toList ++ cause.message
    | .walk root detail => "Walk error under ".toList ++ root ++ ": ".toList ++ detail
    | .ignorePattern pattern detail =>
      "Invalid ignore pattern '".toList ++ pattern ++ "': ".toList ++ detail
    | .qualifier qualifier detail =>
      "Namespace '".toList ++ qualifier ++ "' does not form a valid pattern: ".toList ++ detail
    | .tooLarge path size max =>
      "File too large: ".toList ++ path ++ " (".toList ++ Text.ofNat size ++
        " bytes, max ".toList ++ Text.ofNat max ++ [')']

end LazyFields
