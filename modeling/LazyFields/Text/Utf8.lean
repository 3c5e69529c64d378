import LazyFields.Text

/-!
# UTF-8

Bytes are read one at a time.  An ill-formed sequence is divided into maximal beginnings of
well-formed ones, and each of them is one gap among the characters.  Strict reading refuses a
gap; lenient reading puts the replacement character in its place.
-/
namespace LazyFields.Text.Utf8

/-- A well-formed beginning of a character: the bits so far, the number of bytes still to come,
and the bounds of the next one. -/
structure Pending where
  bits : Nat
  missing : Nat
  low : Nat
  high : Nat

/-- What has been read: the characters and gaps, last one first, and a character begun. -/
structure Progress where
  read : List (Option Char) := []
  pending? : Option Pending := none

namespace Progress

def start (read : List (Option Char)) (b : Nat) : Progress :=
  if b < 0x80 then ⟨some (Char.ofNat b) :: read, none⟩
  else if b < 0xC2 then ⟨none :: read, none⟩
  else if b < 0xE0 then ⟨read, some ⟨b - 0xC0, 1, 0x80, 0xBF⟩⟩
  else if b = 0xE0 then ⟨read, some ⟨0, 2, 0xA0, 0xBF⟩⟩
  else if b = 0xED then ⟨read, some ⟨0xD, 2, 0x80, 0x9F⟩⟩
  else if b < 0xF0 then ⟨read, some ⟨b - 0xE0, 2, 0x80, 0xBF⟩⟩
  else if b = 0xF0 then ⟨read, some ⟨0, 3, 0x90, 0xBF⟩⟩
  else if b < 0xF4 then ⟨read, some ⟨b - 0xF0, 3, 0x80, 0xBF⟩⟩
  else if b = 0xF4 then ⟨read, some ⟨4, 3, 0x80, 0x8F⟩⟩
  else ⟨none :: read, none⟩

/-- Reads one byte.  A byte that cannot continue the character begun closes it as a gap and is
read again as the start of a character. -/
def push (p : Progress) (byte : UInt8) : Progress :=
  let b := byte.toNat
  match p.pending? with
  | none => start p.read b
  | some ⟨bits, missing, low, high⟩ =>
    if low ≤ b ∧ b ≤ high then
      let bits := bits * 64 + (b - 0x80)
      if missing = 1 then ⟨some (Char.ofNat bits) :: p.read, none⟩
      else ⟨p.read, some ⟨bits, missing - 1, 0x80, 0xBF⟩⟩
    else start (none :: p.read) b

def finish (p : Progress) : List (Option Char) :=
  (match p.pending? with
    | none => p.read
    | some _ => none :: p.read).reverse

end Progress

def units (bytes : List UInt8) : List (Option Char) :=
  (bytes.foldl Progress.push {}).finish

/-- The text that the bytes encode, if there is no gap. -/
def decode? (bytes : List UInt8) : Option Text := (units bytes).mapM id

/-- The text that the bytes encode, with a replacement character for each gap. -/
def decodeLenient (bytes : List UInt8) : Text := (units bytes).map (·.getD '\uFFFD')

def dropLineEnd (piece : List UInt8) : List UInt8 :=
  match piece.reverse with
  | 0x0A :: 0x0D :: line => line.reverse
  | 0x0A :: line => line.reverse
  | _ => piece

/-- The lines that the bytes encode, each by itself, if it has no gap. -/
def lines (bytes : List UInt8) : List (Option Text) :=
  let pieces : List (List UInt8) := bytes.foldr
    (fun b ps =>
      if b = 0x0A then [b] :: ps
      else match ps with
        | [] => [[b]]
        | p :: ps => (b :: p) :: ps)
    []
  pieces.map fun p => decode? (dropLineEnd p)

def size (t : Text) : Nat := t.foldl (fun n c => n + c.utf8Size) 0

def encode (t : Text) : ByteArray := (String.ofList t).toUTF8

end LazyFields.Text.Utf8
