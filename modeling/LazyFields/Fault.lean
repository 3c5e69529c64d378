import LazyFields.Text

/-!
# Faults

What every error of the program offers: a stable code and a message.
-/
namespace LazyFields

/-- An error with a code for programs and a message for people. -/
class Fault (ε : Type) where
  code : ε → Text
  message : ε → Text

def coded {ε : Type} [Fault ε] (e : ε) : Text :=
  '[' :: Fault.code e ++ "] ".toList ++ Fault.message e

inductive SystemError where
  | notFound
  | notDirectory
  | isDirectory
  | linkLoop
  | nameTooLong
  | nulInPath
  | invalidUtf8
  | other (text : Text)
deriving DecidableEq, Repr

def SystemError.message : SystemError → Text
  | notFound => "No such file or directory (os error 2)".toList
  | notDirectory => "Not a directory (os error 20)".toList
  | isDirectory => "Is a directory (os error 21)".toList
  | linkLoop => "Too many levels of symbolic links (os error 40)".toList
  | nameTooLong => "File name too long (os error 36)".toList
  | nulInPath => "file name contained an unexpected NUL byte".toList
  | invalidUtf8 => "stream did not contain valid UTF-8".toList
  | other text => text

end LazyFields
