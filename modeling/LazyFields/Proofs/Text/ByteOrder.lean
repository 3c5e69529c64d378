import LazyFields.NameSet
import LazyFields.Proofs.Text.Utf8

/-!
# The order of bytes

A character of higher value has a longer sequence of bytes, which then begins with a greater byte,
or one of the same length, in which the bits come in the order of their weight.  The first byte in
which two texts differ therefore tells which of their characters is the greater one, and texts come
in the same order by their bytes as by their characters.
-/
namespace LazyFields.Text.Utf8

theorem cons_lt_cons {x y : Nat} {s t : List UInt8} (hx : x < 256) (hy : y < 256) (le : x ≤ y)
    (rest : x = y → s < t) : UInt8.ofNat x :: s < UInt8.ofNat y :: t := by
  rcases Nat.lt_or_eq_of_le le with lt | rfl
  · refine List.Lex.rel (UInt8.lt_iff_toNat_lt.2 ?_)
    rwa [UInt8.toNat_ofNat_of_lt' hx, UInt8.toNat_ofNat_of_lt' hy]
  · exact List.Lex.cons (rest rfl)

/-- A character comes before a greater one, whatever follows them. -/
theorem encodeChar_append_lt {c d : Char} (h : c < d) (s t : List UInt8) :
    String.utf8EncodeChar c ++ s < String.utf8EncodeChar d ++ t := by
  have values : c.val.toNat < d.val.toNat := h
  have most : d.val.toNat < 0x110000 := by
    rcases d.valid with valid | valid
    · exact Nat.lt_trans valid (by decide)
    · exact valid.2
  unfold String.utf8EncodeChar
  generalize c.val.toNat = v at values ⊢
  generalize d.val.toNat = w at values most ⊢
  dsimp only
  -- of the cases in which the greater character has fewer bytes none can arise
  split_ifs <;> try omega
  all_goals simp only [List.cons_append, List.nil_append]
  all_goals repeat refine cons_lt_cons (by omega) (by omega) (by omega) fun _ => ?_
  all_goals omega

theorem flatMap_encodeChar_lt {a b : Text} (h : a < b) :
    a.flatMap String.utf8EncodeChar < b.flatMap String.utf8EncodeChar := by
  induction h with
  | @nil d b =>
    obtain ⟨x, bytes, first⟩ := List.exists_cons_of_ne_nil (String.utf8EncodeChar_ne_nil (c := d))
    rw [List.flatMap_nil, List.flatMap_cons, first]
    exact List.Lex.nil
  | rel lt =>
    rw [List.flatMap_cons, List.flatMap_cons]
    exact encodeChar_append_lt lt _ _
  | cons _ ih =>
    rw [List.flatMap_cons, List.flatMap_cons]
    exact List.append_left_lt ih

/-- Texts come in the same order by their bytes and by their characters. -/
theorem encode_lt_iff {a b : Text} :
    (encode a).data.toList < (encode b).data.toList ↔ a < b := by
  rw [toList_encode, toList_encode]
  constructor
  · intro h
    rcases Text.lt_trichotomy a b with lt | rfl | gt
    · exact lt
    · exact absurd h (List.lt_irrefl _)
    · exact absurd h (List.lt_asymm (flatMap_encodeChar_lt gt))
  · exact flatMap_encodeChar_lt

end LazyFields.Text.Utf8
