import LazyFields.Proofs.Toml.LongQuoted

/-!
# Written strings

A string reads back from its written form whichever form fits it.
-/
namespace LazyFields.Toml
open Text

section Forms

variable {rest : Text}

theorem dropLineEnd_eq_self {t : Text} (feed : t.head? ≠ some '\n') (ret : t.head? ≠ some '\r') :
    dropLineEnd t = t := by
  unfold dropLineEnd
  split
  · exact absurd rfl feed
  · exact absurd rfl ret
  · rfl

theorem readString?_basic {t : Text} (h : ¬['"', '"'] <+: t) :
    readString? ('"' :: t) = readBasic 0 [] t := by
  unfold readString?
  split
  · rename_i s hs
    have ht : t = '"' :: '"' :: s := (List.cons.inj hs).2
    exact absurd ⟨s, ht.symm⟩ h
  · rename_i hs
    rw [(List.cons.inj hs).2]
  · rename_i hs
    exact absurd (List.cons.inj hs).1 (by decide)
  · rename_i hs
    exact absurd (List.cons.inj hs).1 (by decide)
  · rename_i other _ _
    exact absurd rfl (other t)

theorem readString?_literal {t : Text} (h : ¬['\'', '\''] <+: t) :
    readString? ('\'' :: t) = readLiteral [] t := by
  unfold readString?
  split
  · rename_i hs
    exact absurd (List.cons.inj hs).1 (by decide)
  · rename_i hs
    exact absurd (List.cons.inj hs).1 (by decide)
  · rename_i s hs
    have ht : t = '\'' :: '\'' :: s := (List.cons.inj hs).2
    exact absurd ⟨s, ht.symm⟩ h
  · rename_i hs
    rw [(List.cons.inj hs).2]
  · rename_i other
    exact absurd rfl (other t)

/-- A literal form fits a string that needs no escape there. -/
def StringForm.Fits : StringForm → Text → Prop
  | .literal, t => (∀ c ∈ t, isPlain c = true) ∧ '\'' ∉ t
  | .longLiteral, t => (∀ c ∈ t, isControl c = false) ∧ longestRun '\'' t ≤ 2
  | _, _ => True

theorem fits_ofText (t : Text) : (StringForm.ofText t).Fits t := by
  simp only [StringForm.ofText]
  split
  · trivial
  split
  · rename_i h
    simp only [Bool.and_eq_true, Bool.not_eq_true', List.any_eq_false, beq_iff_eq,
      List.contains_eq_mem, decide_eq_false_iff_not] at h
    refine ⟨fun c hc => isPlain_iff.2 ⟨by simpa using h.1.1 c hc, ?_⟩,
      not_mem_of_longestRun_eq_zero h.2⟩
    rintro rfl
    exact h.1.2 hc
  split
  · trivial
  split
  · rename_i h
    simp only [Bool.and_eq_true, Bool.not_eq_true', List.any_eq_false, decide_eq_true_eq] at h
    exact ⟨fun c hc => by simpa using h.1 c hc, h.2⟩
  split
  · trivial
  · trivial

theorem head?_basicBody {t s : Text} (ht : t ≠ []) : (basicBody t ++ s).head? ≠ some '"' := by
  cases t with
  | nil => exact absurd rfl ht
  | cons c t =>
    rw [basicBody_cons]
    split
    · simp
    split
    · simp
    · rename_i hc hn
      cases escapeChar_cases c with
      | inl h => simpa [h.1] using hc
      | inr h =>
        cases h with
        | intro body h => simp [h.1]

/-- A long basic string without a line feed does not begin with a line end. -/
theorem head?_longBasicBody_of_not_mem {t : Text} (h : '\n' ∉ t) (s : Text) :
    (longBasicBody 0 t ++ '"' :: s).head? ≠ some '\n' ∧
      (longBasicBody 0 t ++ '"' :: s).head? ≠ some '\r' := by
  cases t with
  | nil => simp [longBasicBody]
  | cons c t =>
    have hn : c ≠ '\n' := fun hc => h (hc ▸ List.mem_cons_self)
    simp only [longBasicBody]
    split
    · simp
    · cases escapeChar_cases c with
      | inl hc => simp [hc.1, hn, hc.2.2.1]
      | inr hc =>
        cases hc with
        | intro body hc => simp [hc.1]

theorem dropLineEnd_append {t body : Text}
    (h : '\n' ∉ t → body.head? ≠ some '\n' ∧ body.head? ≠ some '\r') :
    dropLineEnd ((if '\n' ∈ t then ['\n'] else []) ++ body) = body := by
  by_cases hn : '\n' ∈ t
  · simp [hn, dropLineEnd]
  · simpa [hn] using dropLineEnd_eq_self (h hn).1 (h hn).2

/-- A string reads back from its written form, in front of anything but a quote. -/
theorem readString?_writeString (t : Text) (double : rest.head? ≠ some '"')
    (single : rest.head? ≠ some '\'') :
    readString? (writeString t ++ rest) = some (t, rest) := by
  have fits := fits_ofText t
  unfold writeString
  cases form : StringForm.ofText t with
  | basic =>
    have inside : ¬['"', '"'] <+: basicBody t ++ '"' :: rest := by
      intro h
      cases h with
      | intro s hs =>
        by_cases ht : t = []
        · subst ht
          have hrest : '"' :: s = rest := (List.cons.inj hs).2
          exact double (hrest ▸ rfl)
        · refine head?_basicBody (s := '"' :: rest) ht ?_
          rw [← hs]
          rfl
    simpa [readString?_basic inside] using readBasic_basicBody t [] rest
  | literal =>
    have plain : (∀ c ∈ t, isPlain c = true) ∧ '\'' ∉ t := by rwa [form] at fits
    have inside : ¬['\'', '\''] <+: t ++ '\'' :: rest := by
      intro h
      cases h with
      | intro s hs =>
        cases t with
        | nil =>
          have hrest : '\'' :: s = rest := (List.cons.inj hs).2
          exact single (hrest ▸ rfl)
        | cons c t => exact plain.2 ((List.cons.inj hs).1 ▸ List.mem_cons_self)
    simpa [readString?_literal inside] using readLiteral_append plain.1 plain.2 [] rest
  | longBasic =>
    have body := readLongBasic_longBasicBody (Nat.zero_le 2) t [] double
    have start := dropLineEnd_append (t := t) fun h =>
      head?_longBasicBody_of_not_mem h ('"' :: '"' :: rest)
    simpa [readString?, start] using body
  | longLiteral =>
    have short : (∀ c ∈ t, isControl c = false) ∧ longestRun '\'' t ≤ 2 := by rwa [form] at fits
    have body := readLongLiteral_append short.1 short.2 [] single
    have heads : '\n' ∉ t →
        (t ++ '\'' :: '\'' :: '\'' :: rest).head? ≠ some '\n' ∧
          (t ++ '\'' :: '\'' :: '\'' :: rest).head? ≠ some '\r' := by
      intro h
      cases t with
      | nil => simp
      | cons c t =>
        have hn : c ≠ '\n' := fun hc => h (hc ▸ List.mem_cons_self)
        have hr : c ≠ '\r' := by
          rintro rfl
          exact absurd (short.1 _ List.mem_cons_self) (by decide)
        simp [hn, hr]
    have start := dropLineEnd_append heads
    simpa [readString?, start] using body

end Forms
end LazyFields.Toml
