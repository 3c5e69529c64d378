import LazyFields.Proofs.Text.Blank
import LazyFields.Toml.Quoted
import LazyFields.Toml.Writer

/-!
# Written strings on one line

What stands between the quotes of a string on one line reads back as the string.  A basic string
is written character by character, each as it is or as an escape; a literal string holds no
character that would need one.
-/
namespace LazyFields.Toml
open Text

section Escapes

theorem hexDigit?_hexDigit {n : Nat} (h : n < 16) : hexDigit? (hexDigit n) = some n := by
  interval_cases n <;> rfl

/-- A control character reads back from its code point. -/
theorem codePoint?_hexDigit {c : Char} (h : c.toNat < 0x100) (s : Text) :
    codePoint? 4 ('0' :: '0' :: hexDigit (c.toNat / 16) :: hexDigit (c.toNat % 16) :: s) =
      some c := by
  have high : hexDigit? (hexDigit (c.toNat / 16)) = some (c.toNat / 16) :=
    hexDigit?_hexDigit (by omega)
  have low : hexDigit? (hexDigit (c.toNat % 16)) = some (c.toNat % 16) :=
    hexDigit?_hexDigit (by omega)
  have zero : hexDigit? '0' = some 0 := rfl
  have value : 16 * (c.toNat / 16) + c.toNat % 16 = c.toNat := Nat.div_add_mod ..
  have scalar : c.toNat < 0xD800 := by omega
  simp [codePoint?, List.mapM_cons, high, low, zero, value, scalar, Char.ofNat_toNat]

/-- The text is what follows the backslash of an escape for the character. -/
def Escapes (body : Text) (c : Char) : Prop := ∀ s, escape? (body ++ s) = some (c, body.length)

theorem escapes_quote : Escapes ['"'] '"' := by
  intro s
  simp [escape?]

theorem escapes_lineFeed : Escapes ['n'] '\n' := by
  intro s
  simp [escape?]

/-- A character is written as it is, or behind a backslash in a way that reads back. -/
theorem escapeChar_cases (c : Char) :
    (escapeChar c = [c] ∧ c ≠ '\\' ∧ c ≠ '\r' ∧ isPlain c = true) ∨
      ∃ body, escapeChar c = '\\' :: body ∧ Escapes body c := by
  unfold escapeChar
  split
  · rename_i h
    exact .inr ⟨['b'], rfl, fun s => by simp [escape?, h]⟩
  split
  · rename_i h
    exact .inr ⟨['t'], rfl, fun s => by simp [escape?, h]⟩
  split
  · rename_i h
    exact .inr ⟨['f'], rfl, fun s => by simp [escape?, h]⟩
  split
  · rename_i h
    exact .inr ⟨['r'], rfl, fun s => by simp [escape?, h]⟩
  split
  · rename_i h
    exact .inr ⟨['\\'], rfl, fun s => by simp [escape?, h]⟩
  split
  · rename_i h
    refine .inr ⟨_, rfl, fun s => ?_⟩
    simp [escape?, codePoint?_hexDigit (c := c) (by omega)]
  · rename_i hb ht hf hr hbs hcontrol
    refine .inl ⟨rfl, hbs, hr, ?_⟩
    simp only [isPlain, Bool.or_eq_true, Bool.and_eq_true, decide_eq_true_eq, bne_iff_ne]
    omega

/-- A backslash before an escape is not one at the end of a line. -/
theorem startsLine_of_escape? {t : Text} {e : Char × Nat} (h : escape? t = some e) :
    startsLine (t.dropWhile isSpace) = false := by
  cases t with
  | nil => rfl
  | cons c t =>
    have space : c ≠ ' ' := by
      rintro rfl
      simp [escape?] at h
    have tab : c ≠ '\t' := by
      rintro rfl
      simp [escape?] at h
    have feed : c ≠ '\n' := by
      rintro rfl
      simp [escape?] at h
    have ret : c ≠ '\r' := by
      rintro rfl
      simp [escape?] at h
    have mark : isSpace c = false := by simp [isSpace, space, tab]
    rw [List.dropWhile_cons_of_neg (by simp [mark])]
    simp [startsLine, feed, ret]

end Escapes

section Basic

theorem readBasic_skip (read body rest : Text) :
    readBasic body.length read (body ++ rest) = readBasic 0 read rest := by
  induction body with
  | nil => rfl
  | cons c body ih => simpa [readBasic] using ih

theorem readBasic_escape {body : Text} {c : Char} (h : Escapes body c) (read rest : Text) :
    readBasic 0 read ('\\' :: (body ++ rest)) = readBasic 0 (c :: read) rest := by
  simp [readBasic, h rest, readBasic_skip]

theorem basicBody_cons (c : Char) (t : Text) :
    basicBody (c :: t) =
      (if c = '"' then ['\\', '"'] else if c = '\n' then ['\\', 'n'] else escapeChar c) ++
        basicBody t :=
  List.flatMap_cons

/-- A basic string reads back from between its quotes. -/
theorem readBasic_basicBody (t read rest : Text) :
    readBasic 0 read (basicBody t ++ '"' :: rest) = some (read.reverse ++ t, rest) := by
  induction t generalizing read with
  | nil => simp [basicBody, readBasic]
  | cons c t ih =>
    have later : readBasic 0 (c :: read) (basicBody t ++ '"' :: rest) =
        some (read.reverse ++ c :: t, rest) := by
      rw [ih]
      simp
    rw [basicBody_cons, List.append_assoc]
    split
    · rename_i hc
      subst hc
      exact (readBasic_escape escapes_quote read _).trans later
    split
    · rename_i hc
      subst hc
      exact (readBasic_escape escapes_lineFeed read _).trans later
    · rename_i hq hn
      cases escapeChar_cases c with
      | inl h =>
        rw [h.1]
        simpa [readBasic, hq, h.2.1, h.2.2.2] using later
      | inr h =>
        cases h with
        | intro body h =>
          rw [h.1]
          exact (readBasic_escape h.2 read _).trans later

end Basic

section Literal

theorem isPlain_iff {c : Char} : isPlain c = true ↔ isControl c = false ∧ c ≠ '\n' := by
  by_cases hc : c = '\n'
  · subst hc
    decide
  by_cases ht : c = '\t'
  · subst ht
    decide
  · have plain : isPlain c = (decide (0x20 ≤ c.toNat) && c.toNat != 0x7F) := by
      simp [isPlain, ht]
    have control : isControl c = (decide (c.toNat < 0x20) || c.toNat == 0x7F) := by
      simp [isControl, bne_iff_ne.2 ht, bne_iff_ne.2 hc]
    simp only [plain, control, Bool.and_eq_true, decide_eq_true_eq, bne_iff_ne, ne_eq, hc,
      Bool.or_eq_false_iff, decide_eq_false_iff_not, beq_eq_false_iff_ne, not_false_eq_true,
      and_true, Nat.not_lt]

theorem readLiteral_append {t : Text} (plain : ∀ c ∈ t, isPlain c = true) (hq : '\'' ∉ t)
    (read rest : Text) :
    readLiteral read (t ++ '\'' :: rest) = some (read.reverse ++ t, rest) := by
  induction t generalizing read with
  | nil => simp [readLiteral]
  | cons c t ih =>
    have hc : c ≠ '\'' := fun h => hq (h ▸ List.mem_cons_self)
    have htail : '\'' ∉ t := fun h => hq (List.mem_cons_of_mem c h)
    have later := ih (fun d hd => plain d (List.mem_cons_of_mem c hd)) htail (c :: read)
    simpa [readLiteral, hc, plain c List.mem_cons_self] using later

end Literal

end LazyFields.Toml
