import LazyFields.Text.Utf8
import Mathlib

/-!
# Written text is read back

Each character is written as a well-formed sequence of one to four bytes.  Read byte by byte, the
first byte says how many follow and in which bounds the second lies, and the last one completes the
character.  No text has a gap in its bytes, therefore, and strict reading gives back what was
written.
-/
namespace LazyFields.Text.Utf8

namespace Progress

variable {read : List (Option Char)}

theorem push_start (byte : UInt8) : push ⟨read, none⟩ byte = start read byte.toNat := rfl

theorem push_middle {bits missing low high b : Nat} (size : b < 256) (more : missing ≠ 1)
    (hlow : low ≤ b) (hhigh : b ≤ high) :
    push ⟨read, some ⟨bits, missing, low, high⟩⟩ (UInt8.ofNat b) =
      ⟨read, some ⟨bits * 64 + (b - 0x80), missing - 1, 0x80, 0xBF⟩⟩ := by
  have value : (UInt8.ofNat b).toNat = b := UInt8.toNat_ofNat_of_lt' size
  simp only [push, value, if_pos (And.intro hlow hhigh), if_neg more]

theorem push_last {bits low high b : Nat} (size : b < 256) (hlow : low ≤ b) (hhigh : b ≤ high) :
    push ⟨read, some ⟨bits, 1, low, high⟩⟩ (UInt8.ofNat b) =
      ⟨some (Char.ofNat (bits * 64 + (b - 0x80))) :: read, none⟩ := by
  have value : (UInt8.ofNat b).toNat = b := UInt8.toNat_ofNat_of_lt' size
  simp only [push, value, if_pos (And.intro hlow hhigh), if_true]

theorem start_one {v : Nat} (h : v < 0x80) :
    start read v = ⟨some (Char.ofNat v) :: read, none⟩ := by
  rw [start, if_pos h]

theorem start_two {v : Nat} (least : 0x80 ≤ v) (most : v < 0x800) :
    start read (v / 64 + 192) = ⟨read, some ⟨v / 64, 1, 0x80, 0xBF⟩⟩ := by
  rw [start, if_neg (by omega), if_neg (by omega), if_pos (by omega)]
  simp

/-- The second of three bytes is bounded so that no shorter sequence would do and no surrogate is
written. -/
theorem start_three (read : List (Option Char)) {v : Nat} (least : 0x800 ≤ v) (most : v < 0x10000)
    (scalar : v < 0xD800 ∨ 0xDFFF < v) :
    ∃ low high, start read (v / 4096 + 224) = ⟨read, some ⟨v / 4096, 2, low, high⟩⟩ ∧
      low ≤ v / 64 % 64 + 128 ∧ v / 64 % 64 + 128 ≤ high := by
  rw [start, if_neg (by omega), if_neg (by omega), if_neg (by omega)]
  by_cases zero : v / 4096 = 0
  · refine ⟨0xA0, 0xBF, ?_, by omega, by omega⟩
    simp [zero]
  by_cases thirteen : v / 4096 = 0xD
  · refine ⟨0x80, 0x9F, ?_, by omega, by omega⟩
    simp [thirteen]
  refine ⟨0x80, 0xBF, ?_, by omega, by omega⟩
  rw [if_neg (by omega), if_neg (by omega), if_pos (by omega)]
  simp

/-- The second of four bytes is bounded so that no shorter sequence would do and the character is
within the range. -/
theorem start_four (read : List (Option Char)) {v : Nat} (least : 0x10000 ≤ v)
    (most : v < 0x110000) :
    ∃ low high, start read (v / 262144 + 240) = ⟨read, some ⟨v / 262144, 3, low, high⟩⟩ ∧
      low ≤ v / 4096 % 64 + 128 ∧ v / 4096 % 64 + 128 ≤ high := by
  rw [start, if_neg (by omega), if_neg (by omega), if_neg (by omega), if_neg (by omega),
    if_neg (by omega), if_neg (by omega)]
  by_cases zero : v / 262144 = 0
  · refine ⟨0x90, 0xBF, ?_, by omega, by omega⟩
    simp [zero]
  by_cases four : v / 262144 = 4
  · refine ⟨0x80, 0x8F, ?_, by omega, by omega⟩
    simp [four]
  refine ⟨0x80, 0xBF, ?_, by omega, by omega⟩
  rw [if_neg (by omega), if_pos (by omega)]
  simp

/-- The bytes of a character are read as this character. -/
theorem foldl_push_encodeChar (c : Char) :
    (String.utf8EncodeChar c).foldl push ⟨read, none⟩ = ⟨some c :: read, none⟩ := by
  have valid : c.val.toNat < 0xD800 ∨ 0xDFFF < c.val.toNat ∧ c.val.toNat < 0x110000 := c.valid
  have back : Char.ofNat c.val.toNat = c := Char.ofNat_toNat c
  unfold String.utf8EncodeChar
  generalize c.val.toNat = v at valid back ⊢
  have small {b : Nat} (h : b < 256) : (UInt8.ofNat b).toNat = b := UInt8.toNat_ofNat_of_lt' h
  dsimp only
  split_ifs with one two three
  · simp only [List.foldl_cons, List.foldl_nil]
    rw [push_start, small (by omega), start_one (by omega), back]
  · have lead : v / 64 % 32 = v / 64 := by omega
    have whole : v / 64 * 64 + (v % 64 + 128 - 0x80) = v := by omega
    simp only [List.foldl_cons, List.foldl_nil, lead]
    rw [push_start, small (by omega), start_two (by omega) (by omega),
      push_last (by omega) (by omega) (by omega), whole, back]
  · have lead : v / 4096 % 16 = v / 4096 := by omega
    obtain ⟨low, high, begun, hlow, hhigh⟩ :=
      start_three read (by omega : 0x800 ≤ v) (by omega) (by omega)
    have whole : (v / 4096 * 64 + (v / 64 % 64 + 128 - 0x80)) * 64 + (v % 64 + 128 - 0x80) = v := by
      omega
    simp only [List.foldl_cons, List.foldl_nil, lead]
    rw [push_start, small (by omega), begun, push_middle (by omega) (by omega) hlow hhigh,
      push_last (by omega) (by omega) (by omega), whole, back]
  · have lead : v / 262144 % 8 = v / 262144 := by omega
    obtain ⟨low, high, begun, hlow, hhigh⟩ :=
      start_four read (by omega : 0x10000 ≤ v) (by omega)
    have whole : ((v / 262144 * 64 + (v / 4096 % 64 + 128 - 0x80)) * 64 +
        (v / 64 % 64 + 128 - 0x80)) * 64 + (v % 64 + 128 - 0x80) = v := by
      omega
    simp only [List.foldl_cons, List.foldl_nil, lead]
    rw [push_start, small (by omega), begun, push_middle (by omega) (by omega) hlow hhigh,
      push_middle (by omega) (by omega) (by omega) (by omega),
      push_last (by omega) (by omega) (by omega), whole, back]

theorem foldl_push_encode (t : Text) :
    (t.flatMap String.utf8EncodeChar).foldl push ⟨read, none⟩ =
      ⟨(t.map some).reverse ++ read, none⟩ := by
  induction t generalizing read with
  | nil => rfl
  | cons c t ih =>
    rw [List.flatMap_cons, List.foldl_append, foldl_push_encodeChar, ih]
    simp

end Progress

theorem toList_encode (t : Text) : (encode t).data.toList = t.flatMap String.utf8EncodeChar :=
  List.toList_data_toByteArray

theorem units_encode (t : Text) : units (encode t).data.toList = t.map some := by
  rw [units, toList_encode, Progress.foldl_push_encode]
  simp [Progress.finish]

/-- A text is read back from its bytes. -/
theorem decode?_encode (t : Text) : decode? (encode t).data.toList = some t := by
  rw [decode?, units_encode]
  induction t with
  | nil => rfl
  | cons c t ih => simp [List.mapM_cons, ih]

end LazyFields.Text.Utf8
