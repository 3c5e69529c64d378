import LazyFields.Proofs.Text.AsciiBytes

/-!
# What is read strictly was written

The bytes of a character begun are those with which the encodings of all characters begin that can
still come of it.  Its last byte leaves one of them.  Bytes without a gap are therefore the bytes of
the text that is read from them, and a text is read from its bytes only.
-/
namespace LazyFields.Text.Utf8

/-- The last `k` bytes of the encoding of a value, with six bits in each. -/
def lastBytes (v : Nat) : (k : Nat) → List UInt8
  | 0 => []
  | k + 1 => UInt8.ofNat (v / 64 ^ k % 64 + 128) :: lastBytes v k

namespace Pending

structure Begins (q : Pending) (row : List UInt8) : Prop where
  high : q.high ≤ 0xBF
  encodes : ∀ c : Char, q.least ≤ c.toNat → c.toNat < q.limit →
    String.utf8EncodeChar c = row ++ lastBytes c.toNat q.missing

section Next
variable {q : Pending} {row : List UInt8} {b : UInt8}

theorem ofNat_sixBits {v n k : Nat} (low : 0x80 ≤ b.toNat) (high : b.toNat ≤ 0xBF)
    (least : (n * 64 + (b.toNat - 0x80)) * 64 ^ k ≤ v)
    (limit : v < (n * 64 + (b.toNat - 0x80) + 1) * 64 ^ k) :
    UInt8.ofNat (v / 64 ^ k % 64 + 128) = b := by
  have quotient : v / 64 ^ k = n * 64 + (b.toNat - 0x80) := Nat.div_eq_of_lt_le least limit
  have value : v / 64 ^ k % 64 + 128 = b.toNat := by
    rw [quotient]
    omega
  rw [value, UInt8.ofNat_toNat]

theorem lastBytes_next {v : Nat} (more : 2 ≤ q.missing) (low : 0x80 ≤ b.toNat)
    (high : b.toNat ≤ 0xBF) (least : (q.next b.toNat).least ≤ v)
    (limit : v < (q.next b.toNat).limit) :
    lastBytes v q.missing = b :: lastBytes v (q.missing - 1) := by
  rw [least_next more] at least
  rw [limit_next more] at limit
  obtain ⟨k, hk⟩ := Nat.exists_eq_add_of_le' (Nat.le_of_succ_le more)
  rw [hk, Nat.add_sub_cancel] at least limit ⊢
  rw [lastBytes, ofNat_sixBits low high least limit]

theorem Begins.next (h : q.Begins row) (beyond : q.Beyond) (more : 2 ≤ q.missing)
    (hlow : q.low ≤ b.toNat) (hhigh : b.toNat ≤ q.high) :
    (q.next b.toNat).Begins (row ++ [b]) := by
  refine ⟨Nat.le_refl _, fun c least limit => ?_⟩
  have whole := h.encodes c ((least_le_least_next more hlow).trans least)
    (limit.trans_le (limit_next_le_limit more hhigh))
  rw [whole, lastBytes_next more (beyond.low.trans hlow) (hhigh.trans h.high) least limit,
    List.append_assoc, List.singleton_append]
  rfl

theorem Begins.last (h : q.Begins row) (beyond : q.Beyond) (last : q.missing = 1)
    (hlow : q.low ≤ b.toNat) (hhigh : b.toNat ≤ q.high) :
    String.utf8EncodeChar (Char.ofNat (q.bits * 64 + (b.toNat - 0x80))) = row ++ [b] := by
  have value := beyond.toNat_last last hlow hhigh
  have least := least_le_of_last last hlow
  have limit := lt_limit_of_last last hhigh
  have whole := h.encodes _ (least.trans_eq value.symm) (value.trans_lt limit)
  have bits := ofNat_sixBits (v := q.bits * 64 + (b.toNat - 0x80)) (n := q.bits) (k := 0)
    (beyond.low.trans hlow) (hhigh.trans h.high) (by simp) (by simp)
  rw [whole, value, last, lastBytes, bits, lastBytes]

end Next
end Pending

section Lead
variable {c : Char}

theorem encodeChar_two (least : 0x80 ≤ c.toNat) (most : c.toNat < 0x800) :
    String.utf8EncodeChar c = UInt8.ofNat (c.toNat / 64 + 192) :: lastBytes c.toNat 1 := by
  have lead : c.toNat / 64 % 32 = c.toNat / 64 := by omega
  have longer : ¬c.val.toNat ≤ 127 := Nat.not_le.2 least
  have below : c.val.toNat ≤ 2047 := Nat.le_of_lt_succ most
  simp only [String.utf8EncodeChar, if_neg longer, if_pos below, lastBytes, Nat.pow_zero,
    Nat.div_one]
  rw [← lead]
  rfl

theorem encodeChar_three (least : 0x800 ≤ c.toNat) (most : c.toNat < 0x10000) :
    String.utf8EncodeChar c = UInt8.ofNat (c.toNat / 4096 + 224) :: lastBytes c.toNat 2 := by
  have lead : c.toNat / 4096 % 16 = c.toNat / 4096 := by omega
  have longer : ¬c.val.toNat ≤ 127 := Nat.not_le.2 (le_trans (by decide) least)
  have longer' : ¬c.val.toNat ≤ 2047 := Nat.not_le.2 least
  have below : c.val.toNat ≤ 65535 := Nat.le_of_lt_succ most
  simp only [String.utf8EncodeChar, if_neg longer, if_neg longer', if_pos below, lastBytes,
    Nat.pow_zero, Nat.pow_one, Nat.div_one]
  rw [← lead]
  rfl

theorem encodeChar_four (least : 0x10000 ≤ c.toNat) :
    String.utf8EncodeChar c = UInt8.ofNat (c.toNat / 262144 + 240) :: lastBytes c.toNat 3 := by
  have lead : c.toNat / 262144 % 8 = c.toNat / 262144 := by
    have := c.valid
    unfold Char.toNat at *
    omega
  have longer : ¬c.val.toNat ≤ 127 := Nat.not_le.2 (le_trans (by decide) least)
  have longer' : ¬c.val.toNat ≤ 2047 := Nat.not_le.2 (le_trans (by decide) least)
  have longer'' : ¬c.val.toNat ≤ 65535 := Nat.not_le.2 least
  simp only [String.utf8EncodeChar, if_neg longer, if_neg longer', if_neg longer'', lastBytes,
    Nat.pow_zero, Nat.pow_one, Nat.div_one]
  rw [← lead]
  rfl

end Lead

namespace Progress
variable {read : List (Option Char)} {b : Nat}

/-- The first byte of a character begins the encodings of the characters that it leaves. -/
theorem begins_start {q : Pending} :
    (start read b).pending? = some q → q.Begins [UInt8.ofNat b] := by
  fun_cases start read b with
  | case1 | case2 | case10 => simp
  | case3 =>
    rintro begun
    obtain rfl := Option.some.inj begun
    refine ⟨by simp, fun c least limit => ?_⟩
    simp only [Pending.least, Pending.limit] at least limit
    change _ = UInt8.ofNat b :: lastBytes c.toNat 1
    rw [encodeChar_two (by omega) (by omega), (by omega : c.toNat / 64 + 192 = b)]
  | case4 | case5 | case6 =>
    rintro begun
    obtain rfl := Option.some.inj begun
    refine ⟨by simp, fun c least limit => ?_⟩
    simp only [Pending.least, Pending.limit] at least limit
    change _ = UInt8.ofNat _ :: lastBytes c.toNat 2
    rw [encodeChar_three (by omega) (by omega)]
    congr 2
    omega
  | case7 | case8 | case9 =>
    rintro begun
    obtain rfl := Option.some.inj begun
    refine ⟨by simp, fun c least limit => ?_⟩
    simp only [Pending.least, Pending.limit] at least limit
    change _ = UInt8.ofNat _ :: lastBytes c.toNat 3
    rw [encodeChar_four (by omega)]
    congr 2
    omega

/-- As long as there is no gap, the bytes are those of what has been read, and of the character
begun. -/
inductive Encodes : List UInt8 → Progress → Prop
  | gap {bytes : List UInt8} {p : Progress} (gap : none ∈ p.read) : Encodes bytes p
  | between (t : Text) : Encodes (t.flatMap String.utf8EncodeChar) ⟨(t.map some).reverse, none⟩
  | within (t : Text) {row : List UInt8} {q : Pending} (beyond : q.Beyond) (begins : q.Begins row) :
      Encodes (t.flatMap String.utf8EncodeChar ++ row) ⟨(t.map some).reverse, some q⟩

section Run
variable {bytes : List UInt8} {byte : UInt8}

theorem mem_start (gap : none ∈ read) (b : Nat) : none ∈ (start read b).read := by
  have begun := starts read b
  generalize start read b = p at begun ⊢
  cases begun with
  | ascii | gap => exact List.mem_cons_of_mem _ gap
  | begun => exact gap

theorem mem_push {p : Progress} (gap : none ∈ p.read) (byte : UInt8) :
    none ∈ (p.push byte).read := by
  obtain ⟨read, pending⟩ := p
  cases pending with
  | none => exact mem_start gap byte.toNat
  | some q =>
    obtain ⟨bits, missing, low, high⟩ := q
    simp only [push]
    split_ifs
    · exact List.mem_cons_of_mem _ gap
    · exact gap
    · exact mem_start (List.mem_cons_of_mem _ gap) byte.toNat

theorem encodes_char (t : Text) (c : Char) :
    Encodes (t.flatMap String.utf8EncodeChar ++ String.utf8EncodeChar c)
      ⟨some c :: (t.map some).reverse, none⟩ := by
  have more := Encodes.between (t ++ [c])
  simpa using more

theorem encodes_start (t : Text) (byte : UInt8) :
    Encodes (t.flatMap String.utf8EncodeChar ++ [byte])
      (start (t.map some).reverse byte.toNat) := by
  have begins {q : Pending} : (start (t.map some).reverse byte.toNat).pending? = some q →
      q.Begins [UInt8.ofNat byte.toNat] :=
    begins_start
  have begun := starts (t.map some).reverse byte.toNat
  generalize start (t.map some).reverse byte.toNat = p at begins begun ⊢
  cases begun with
  | ascii small =>
    have one := encodes_char t (Char.ofNat byte.toNat)
    rwa [utf8EncodeChar_of_ascii (by rwa [toNat_ofNat_byte small]),
      (byte_eq_iff (by rwa [toNat_ofNat_byte small]) small).2 rfl] at one
  | gap above => exact .gap (by simp)
  | begun above beyond =>
    have first := begins rfl
    rw [UInt8.ofNat_toNat] at first
    exact .within t beyond first

theorem encodes_push {p : Progress} (h : Encodes bytes p) (byte : UInt8) :
    Encodes (bytes ++ [byte]) (p.push byte) := by
  cases h with
  | gap gap => exact .gap (mem_push gap byte)
  | between t => exact encodes_start t byte
  | @within t row q beyond begins =>
    obtain ⟨bits, missing, low, high⟩ := q
    simp only [push, List.append_assoc]
    split_ifs with inside last
    · rw [← begins.last beyond last inside.1 inside.2]
      exact encodes_char t _
    · have two : 2 ≤ missing := by
        have := beyond.missing
        dsimp only at this
        omega
      exact .within t (beyond.next two inside.1 inside.2)
        (begins.next beyond two inside.1 inside.2)
    · exact .gap (mem_start List.mem_cons_self byte.toNat)

theorem encodes_foldl {p : Progress} (h : Encodes bytes p) (more : List UInt8) :
    Encodes (bytes ++ more) (more.foldl push p) := by
  induction more generalizing bytes p with
  | nil => rwa [List.append_nil]
  | cons byte more ih =>
    have rest := ih (encodes_push h byte)
    rwa [List.append_assoc, List.singleton_append] at rest

theorem encodes_finish {p : Progress} (h : Encodes bytes p) {t : Text}
    (finished : p.finish = t.map some) : bytes = t.flatMap String.utf8EncodeChar := by
  have closed : none ∉ p.finish := by
    rw [finished]
    simp
  cases h with
  | gap gap =>
    refine absurd ?_ closed
    cases pending : p.pending? <;> simp [finish, pending, gap]
  | between s =>
    have same : s.map some = t.map some := by simpa [finish] using finished
    rw [List.map_injective_iff.2 (Option.some_injective _) same]
  | within s beyond begins => exact absurd (by simp [finish]) closed

end Run
end Progress

theorem eq_map_some_of_mapM {us : List (Option Char)} {t : Text} (h : us.mapM id = some t) :
    us = t.map some := by
  induction us generalizing t with
  | nil => simpa using h
  | cons u us ih =>
    rw [List.mapM_cons] at h
    obtain ⟨c, hu, h⟩ := Option.bind_eq_some_iff.1 h
    obtain ⟨rest, hrest, h⟩ := Option.bind_eq_some_iff.1 h
    rw [ih hrest, ← Option.some.inj h, List.map_cons, ← hu, id]

/-- A text is read strictly from its bytes, and from no others. -/
theorem decode?_eq_some_iff {bytes : List UInt8} {t : Text} :
    decode? bytes = some t ↔ bytes = (encode t).data.toList := by
  constructor
  · intro read
    have whole : units bytes = t.map some := eq_map_some_of_mapM read
    have encodes := Progress.encodes_foldl (.between []) bytes
    rw [toList_encode]
    exact Progress.encodes_finish encodes whole
  · rintro rfl
    exact decode?_encode t

end LazyFields.Text.Utf8
