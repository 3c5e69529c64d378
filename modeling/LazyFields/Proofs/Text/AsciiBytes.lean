import LazyFields.Proofs.Text.Blank
import LazyFields.Proofs.Text.Utf8

/-!
# Text of ASCII among other bytes

A byte of ASCII is a character by itself wherever it stands: it continues none, and one that is
begun before it is closed as a gap.  Characters of more bytes, and gaps, take up no byte of ASCII
and are none of its characters.  A text of ASCII therefore stands in what has been read leniently
exactly when its bytes stand in the bytes, however ill-formed these are around it.
-/
namespace LazyFields.Text.Utf8

/-- Bytes and text run alongside: each byte of ASCII is a character, and each row of other bytes is
one that is not of ASCII. -/
inductive Alongside : List UInt8 → Text → Prop
  | nil : Alongside [] []
  | ascii {b : UInt8} {bytes : List UInt8} {t : Text} (small : b.toNat < 0x80)
      (rest : Alongside bytes t) : Alongside (b :: bytes) (Char.ofNat b.toNat :: t)
  | beyond {row bytes : List UInt8} {c : Char} {t : Text} (ne : row ≠ [])
      (above : ∀ b ∈ row, 0x80 ≤ b.toNat) (large : 0x80 ≤ c.toNat) (rest : Alongside bytes t) :
      Alongside (row ++ bytes) (c :: t)

theorem Alongside.append {bytes more : List UInt8} {s t : Text} (h : Alongside bytes s)
    (h' : Alongside more t) : Alongside (bytes ++ more) (s ++ t) := by
  induction h with
  | nil => exact h'
  | ascii small _ ih => exact .ascii small ih
  | beyond ne above large _ ih =>
    rw [List.append_assoc]
    exact .beyond ne above large ih

section Parts
variable {bytes : List UInt8} {t part : Text}

def byte (c : Char) : UInt8 := UInt8.ofNat c.toNat

theorem toNat_byte {c : Char} (h : c.toNat < 0x80) : (byte c).toNat = c.toNat :=
  UInt8.toNat_ofNat_of_lt' (Nat.lt_trans h (by decide))

theorem toNat_ofNat_byte {b : UInt8} (h : b.toNat < 0x80) :
    (Char.ofNat b.toNat).toNat = b.toNat := by
  rw [Char.toNat_ofNat, if_pos (.inl (Nat.lt_trans h (by decide)))]

theorem byte_eq_iff {c : Char} {b : UInt8} (hc : c.toNat < 0x80) (hb : b.toNat < 0x80) :
    byte c = b ↔ c = Char.ofNat b.toNat := by
  rw [← UInt8.toNat_inj, toNat_byte hc, ← Char.toNat_inj, toNat_ofNat_byte hb]

theorem Alongside.prefix_iff (h : Alongside bytes t) (ascii : ∀ c ∈ part, c.toNat < 0x80) :
    part.map byte <+: bytes ↔ part <+: t := by
  induction h generalizing part with
  | nil => simp
  | ascii small _ ih =>
    cases part with
    | nil => simp
    | cons c part =>
      obtain ⟨hc, rest⟩ := List.forall_mem_cons.1 ascii
      rw [List.map_cons, List.cons_prefix_cons, List.cons_prefix_cons, byte_eq_iff hc small,
        ih rest]
  | @beyond row bytes d t ne above large _ _ =>
    cases part with
    | nil => simp
    | cons c part =>
      have hc := ascii c List.mem_cons_self
      obtain ⟨b, row, rfl⟩ := List.exists_cons_of_ne_nil ne
      have hb := above b List.mem_cons_self
      refine iff_of_false (fun start => ?_) fun start => ?_
      · have same := (List.cons_prefix_cons.1 start).1
        rw [← same, toNat_byte hc] at hb
        exact Nat.not_lt.2 hb hc
      · rw [(List.cons_prefix_cons.1 start).1] at hc
        exact Nat.not_lt.2 large hc

/-- No part of ASCII begins in a row of other bytes, or with the character that they make up. -/
theorem Alongside.infix_cons_iff (h : Alongside bytes t) {c : Char}
    (ascii : ∀ d ∈ c :: part, d.toNat < 0x80) :
    (c :: part).map byte <:+: bytes ↔ c :: part <:+: t := by
  have hc := ascii c List.mem_cons_self
  induction h with
  | nil => simp
  | ascii small rest ih =>
    rw [List.infix_cons_iff, List.infix_cons_iff]
    exact or_congr ((rest.ascii small).prefix_iff ascii) ih
  | @beyond row bytes d t ne above large _ ih =>
    have noByte : byte c ∉ row := fun m => Nat.not_lt.2 (above _ m) (by rwa [toNat_byte hc])
    have noChar : c ∉ [d] := fun m => Nat.not_lt.2 large (List.mem_singleton.1 m ▸ hc)
    calc byte c :: part.map byte <:+: row ++ bytes
        ↔ byte c :: part.map byte <:+: bytes := infix_append_of_not_mem noByte bytes
      _ ↔ c :: part <:+: t := ih
      _ ↔ c :: part <:+: [d] ++ t := (infix_append_of_not_mem noChar t).symm

end Parts

namespace Pending

def least (q : Pending) : Nat := (q.bits * 64 + (q.low - 0x80)) * 64 ^ (q.missing - 1)

def limit (q : Pending) : Nat := (q.bits * 64 + (q.high - 0x80) + 1) * 64 ^ (q.missing - 1)

def next (q : Pending) (b : Nat) : Pending := ⟨q.bits * 64 + (b - 0x80), q.missing - 1, 0x80, 0xBF⟩

/-- However it goes on, the character is one that is not of ASCII: the values that it can get are no
surrogates and belong to characters. -/
structure Beyond (q : Pending) : Prop where
  missing : 1 ≤ q.missing
  low : 0x80 ≤ q.low
  above : 0x80 ≤ q.least
  scalar : q.limit ≤ 0xD800 ∨ 0xE000 ≤ q.least ∧ q.limit ≤ 0x110000

section Next
variable {q : Pending} {b : Nat}

theorem least_next (more : 2 ≤ q.missing) :
    (q.next b).least = (q.bits * 64 + (b - 0x80)) * 64 ^ (q.missing - 1) := by
  obtain ⟨k, hk⟩ := Nat.exists_eq_add_of_le' more
  have rest : q.missing - 1 = k + 1 := by omega
  unfold least next
  dsimp only
  rw [rest, Nat.add_sub_cancel, Nat.pow_succ', ← Nat.mul_assoc, Nat.sub_self, Nat.add_zero]

theorem limit_next (more : 2 ≤ q.missing) :
    (q.next b).limit = (q.bits * 64 + (b - 0x80) + 1) * 64 ^ (q.missing - 1) := by
  obtain ⟨k, hk⟩ := Nat.exists_eq_add_of_le' more
  have rest : q.missing - 1 = k + 1 := by omega
  unfold limit next
  dsimp only
  rw [rest, Nat.add_sub_cancel, Nat.pow_succ', ← Nat.mul_assoc, Nat.add_mul _ 1 64]

theorem least_le_least_next (more : 2 ≤ q.missing) (hlow : q.low ≤ b) :
    q.least ≤ (q.next b).least := by
  rw [least_next more, least]
  exact Nat.mul_le_mul_right _ (by omega)

theorem limit_next_le_limit (more : 2 ≤ q.missing) (hhigh : b ≤ q.high) :
    (q.next b).limit ≤ q.limit := by
  rw [limit_next more, limit]
  exact Nat.mul_le_mul_right _ (by omega)

theorem Beyond.next (h : q.Beyond) (more : 2 ≤ q.missing) (hlow : q.low ≤ b) (hhigh : b ≤ q.high) :
    (q.next b).Beyond where
  missing := Nat.le_sub_one_of_lt more
  low := le_rfl
  above := h.above.trans (least_le_least_next more hlow)
  scalar := h.scalar.imp (limit_next_le_limit more hhigh).trans fun ⟨above, below⟩ =>
    ⟨above.trans (least_le_least_next more hlow), (limit_next_le_limit more hhigh).trans below⟩

theorem least_le_of_last (last : q.missing = 1) (hlow : q.low ≤ b) :
    q.least ≤ q.bits * 64 + (b - 0x80) := by
  rw [least, last, Nat.sub_self, Nat.pow_zero, Nat.mul_one]
  exact Nat.add_le_add_left (Nat.sub_le_sub_right hlow _) _

theorem lt_limit_of_last (last : q.missing = 1) (hhigh : b ≤ q.high) :
    q.bits * 64 + (b - 0x80) < q.limit := by
  rw [limit, last, Nat.sub_self, Nat.pow_zero, Nat.mul_one]
  exact Nat.lt_succ_of_le (Nat.add_le_add_left (Nat.sub_le_sub_right hhigh _) _)

theorem Beyond.toNat_last (h : q.Beyond) (last : q.missing = 1) (hlow : q.low ≤ b)
    (hhigh : b ≤ q.high) :
    (Char.ofNat (q.bits * 64 + (b - 0x80))).toNat = q.bits * 64 + (b - 0x80) := by
  have above := least_le_of_last last hlow
  have below := lt_limit_of_last last hhigh
  have valid : (q.bits * 64 + (b - 0x80)).isValidChar := by
    rcases h.scalar with low | ⟨high, range⟩
    · exact .inl (below.trans_le low)
    · exact .inr ⟨high.trans above, below.trans_le range⟩
  rw [Char.toNat_ofNat, if_pos valid]

theorem Beyond.last (h : q.Beyond) (last : q.missing = 1) (hlow : q.low ≤ b) (hhigh : b ≤ q.high) :
    0x80 ≤ (Char.ofNat (q.bits * 64 + (b - 0x80))).toNat := by
  rw [h.toNat_last last hlow hhigh]
  exact h.above.trans (least_le_of_last last hlow)

end Next
end Pending

namespace Progress
variable {read : List (Option Char)} {byte : UInt8}

/-- All that a byte can do where a character may begin: be one of ASCII, be a gap, or begin one that
is not of ASCII. -/
inductive Starts (read : List (Option Char)) (b : Nat) : Progress → Prop
  | ascii (small : b < 0x80) : Starts read b ⟨some (Char.ofNat b) :: read, none⟩
  | gap (above : 0x80 ≤ b) : Starts read b ⟨none :: read, none⟩
  | begun {q : Pending} (above : 0x80 ≤ b) (beyond : q.Beyond) : Starts read b ⟨read, some q⟩

theorem starts (read : List (Option Char)) (b : Nat) : Starts read b (start read b) := by
  fun_cases start read b with
  | case1 one => exact .ascii one
  | case2 one => exact .gap (Nat.not_lt.1 one)
  | case3 one =>
    refine .begun (Nat.not_lt.1 one) ⟨le_rfl, le_rfl, ?_, .inl ?_⟩
    all_goals simp only [Pending.least, Pending.limit]
    all_goals omega
  | case4 one | case5 one =>
    exact .begun (Nat.not_lt.1 one) ⟨by decide, by decide, by decide, .inl (by decide)⟩
  | case6 one =>
    -- the two lead bytes around that of the surrogates are told apart by the bounds
    refine .begun (Nat.not_lt.1 one) ⟨(by decide : 1 ≤ 2), le_rfl, ?_, ?_⟩
    all_goals simp only [Pending.least, Pending.limit]
    all_goals omega
  | case7 one | case9 one =>
    exact .begun (Nat.not_lt.1 one) ⟨by decide, by decide, by decide, .inr (by decide)⟩
  | case8 one =>
    refine .begun (Nat.not_lt.1 one) ⟨(by decide : 1 ≤ 3), le_rfl, ?_, .inr ⟨?_, ?_⟩⟩
    all_goals simp only [Pending.least, Pending.limit]
    all_goals omega
  | case10 one => exact .gap (Nat.not_lt.1 one)

def written (read : List (Option Char)) : Text := (read.map (·.getD '\uFFFD')).reverse

theorem written_some (c : Char) (read : List (Option Char)) :
    written (some c :: read) = written read ++ [c] := by
  simp [written]

theorem written_none (read : List (Option Char)) :
    written (none :: read) = written read ++ ['\uFFFD'] := by
  simp [written]

/-- The bytes up to the character begun run alongside what has been read, and those of the character
begun are none of ASCII. -/
inductive Follows : List UInt8 → Progress → Prop
  | between {bytes : List UInt8} {read : List (Option Char)}
      (done : Alongside bytes (written read)) : Follows bytes ⟨read, none⟩
  | within {bytes row : List UInt8} {read : List (Option Char)} {q : Pending}
      (done : Alongside bytes (written read)) (ne : row ≠ []) (above : ∀ b ∈ row, 0x80 ≤ b.toNat)
      (beyond : q.Beyond) : Follows (bytes ++ row) ⟨read, some q⟩

section Run
variable {bytes row : List UInt8} {read : List (Option Char)} {byte : UInt8}

theorem alongside_char {c : Char} (done : Alongside bytes (written read)) (ne : row ≠ [])
    (above : ∀ b ∈ row, 0x80 ≤ b.toNat) (large : 0x80 ≤ c.toNat) :
    Alongside (bytes ++ row) (written (some c :: read)) := by
  rw [written_some]
  apply done.append
  have one := Alongside.beyond ne above large .nil
  rwa [List.append_nil] at one

theorem alongside_gap (done : Alongside bytes (written read)) (ne : row ≠ [])
    (above : ∀ b ∈ row, 0x80 ≤ b.toNat) : Alongside (bytes ++ row) (written (none :: read)) := by
  rw [written_none, ← written_some]
  exact alongside_char done ne above (by decide)

theorem follows_start (done : Alongside bytes (written read)) (byte : UInt8) :
    Follows (bytes ++ [byte]) (start read byte.toNat) := by
  have begins := starts read byte.toNat
  generalize start read byte.toNat = p at begins ⊢
  cases begins with
  | ascii small =>
    refine .between ?_
    rw [written_some]
    exact done.append (.ascii small .nil)
  | gap above => exact .between (alongside_gap done (by simp) (by simpa using above))
  | begun above beyond => exact .within done (by simp) (by simpa using above) beyond

theorem follows_push {p : Progress} (h : Follows bytes p) (byte : UInt8) :
    Follows (bytes ++ [byte]) (p.push byte) := by
  cases h with
  | between done => exact follows_start done byte
  | @within bytes row read q done ne above beyond =>
    obtain ⟨bits, missing, low, high⟩ := q
    simp only [push]
    split
    · rename_i inside
      have large : 0x80 ≤ byte.toNat := beyond.low.trans inside.1
      have longer : ∀ b ∈ row ++ [byte], 0x80 ≤ b.toNat := by
        simpa [or_imp, forall_and] using ⟨above, large⟩
      rw [List.append_assoc]
      split
      · rename_i last
        exact .between (alongside_char done (by simp) longer (beyond.last last inside.1 inside.2))
      · rename_i more
        have two : 2 ≤ missing := by
          have := beyond.missing
          dsimp only at this
          omega
        exact .within done (by simp) longer (beyond.next two inside.1 inside.2)
    · exact follows_start (alongside_gap done ne above) byte

theorem follows_foldl {p : Progress} (h : Follows bytes p) (more : List UInt8) :
    Follows (bytes ++ more) (more.foldl push p) := by
  induction more generalizing bytes p with
  | nil => rwa [List.append_nil]
  | cons byte more ih =>
    have rest := ih (follows_push h byte)
    rwa [List.append_assoc, List.singleton_append] at rest

theorem alongside_finish {p : Progress} (h : Follows bytes p) :
    Alongside bytes (p.finish.map (·.getD '\uFFFD')) := by
  cases h with
  | between done => simpa [finish, written] using done
  | within done ne above beyond =>
    simpa [finish, written] using alongside_gap done ne above

end Run
end Progress

/-- Lenient reading runs alongside the bytes. -/
theorem alongside_decodeLenient (bytes : List UInt8) : Alongside bytes (decodeLenient bytes) := by
  have start : Progress.Follows [] {} := .between .nil
  exact Progress.alongside_finish (Progress.follows_foldl start bytes)

theorem utf8EncodeChar_of_ascii {c : Char} (h : c.toNat < 0x80) :
    String.utf8EncodeChar c = [byte c] := by
  have one : c.val.toNat ≤ 127 := Nat.le_of_lt_succ h
  simp only [String.utf8EncodeChar, if_pos one]
  rfl

theorem toList_encode_of_ascii {t : Text} (h : ∀ c ∈ t, c.toNat < 0x80) :
    (encode t).data.toList = t.map byte := by
  rw [toList_encode, List.map_eq_flatMap]
  exact List.flatMap_congr fun c hc => utf8EncodeChar_of_ascii (h c hc)

/-- A text of ASCII stands in what is read from bytes exactly when its bytes stand in them. -/
theorem infix_decodeLenient_iff {part : Text} (ascii : ∀ c ∈ part, c.toNat < 0x80)
    (bytes : List UInt8) :
    part <:+: decodeLenient bytes ↔ (encode part).data.toList <:+: bytes := by
  rw [toList_encode_of_ascii ascii]
  cases part with
  | nil => simp
  | cons c part => exact ((alongside_decodeLenient bytes).infix_cons_iff ascii).symm

end LazyFields.Text.Utf8
