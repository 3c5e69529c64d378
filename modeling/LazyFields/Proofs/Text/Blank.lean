import LazyFields.Text.Blank
import Mathlib

/-!
# Trimmed texts

A text is its trimmed text between two rows of blanks.  Trimming therefore neither loses nor makes
an occurrence of a text that begins and ends with visible characters.
-/
namespace LazyFields.Text

def Blank (t : Text) : Prop := ∀ c ∈ t, isBlank c = true

instance (t : Text) : Decidable (Blank t) :=
  decidable_of_iff (t.all isBlank = true) List.all_eq_true

@[simp] theorem blank_nil : Blank [] := by simp [Blank]

@[simp] theorem blank_cons {c : Char} {t : Text} : Blank (c :: t) ↔ isBlank c = true ∧ Blank t := by
  simp [Blank]

@[simp] theorem blank_append {s t : Text} : Blank (s ++ t) ↔ Blank s ∧ Blank t := by
  simp [Blank, or_imp, forall_and]

theorem Blank.reverse {t : Text} (h : Blank t) : Blank t.reverse := by
  intro c hc
  exact h c (List.mem_reverse.1 hc)

/-- A character of ASCII that leaves ink is not blank. -/
theorem isBlank_eq_false_of_ascii {c : Char} (h₀ : 0x20 < c.toNat) (h₁ : c.toNat < 0x7F) :
    isBlank c = false := by
  have wide : Ranges.has [(0x21, 0x7E)] c = true := by
    simp only [Ranges.has, List.any_cons, List.any_nil, Bool.or_false, Bool.and_eq_true,
      decide_eq_true_eq]
    omega
  exact Ranges.not_has_of_apart (by decide) wide

theorem ne_of_class {p : Char → Bool} {c d : Char} (hc : p c = true) (hd : p d = false) :
    c ≠ d := by
  rintro rfl
  rw [hc] at hd
  contradiction

theorem not_mem_of_class {p : Char → Bool} {c : Char} (hc : p c = false) {t : Text}
    (h : ∀ d ∈ t, p d = true) : c ∉ t := by
  intro m
  rw [h c m] at hc
  contradiction

theorem head?_append_ne {p : Char → Bool} {row : Text} (ne : row ≠ [])
    (inside : ∀ c ∈ row, p c = true) {d : Char} (hd : p d = false) (t : Text) :
    (row ++ t).head? ≠ some d := by
  cases row with
  | nil => exact absurd rfl ne
  | cons c row =>
    intro h
    exact ne_of_class (inside c List.mem_cons_self) hd (Option.some.inj h)

theorem takeWhile_append_stop {p : Char → Bool} {row rest : Text} (inside : ∀ c ∈ row, p c = true)
    (stop : ∀ c, rest.head? = some c → p c = false) : (row ++ rest).takeWhile p = row := by
  rw [List.takeWhile_append_of_pos inside]
  cases rest with
  | nil => simp
  | cons c rest => simp [stop c rfl]

theorem dropWhile_append_stop {p : Char → Bool} {row rest : Text} (inside : ∀ c ∈ row, p c = true)
    (stop : ∀ c, rest.head? = some c → p c = false) : (row ++ rest).dropWhile p = rest := by
  rw [List.dropWhile_append_of_pos inside]
  cases rest with
  | nil => rfl
  | cons c rest => simp [stop c rfl]

theorem head?_dropWhile_stop {p : Char → Bool} {t : Text} {c : Char}
    (h : (t.dropWhile p).head? = some c) : p c = false := by
  have stop := List.head?_dropWhile_not p t
  rw [h] at stop
  simpa using stop

theorem exists_trimStart (t : Text) : ∃ lead, Blank lead ∧ t = lead ++ trimStart t := by
  refine ⟨t.takeWhile isBlank, fun c hc => ?_, List.takeWhile_append_dropWhile.symm⟩
  exact List.all_eq_true.1 List.all_takeWhile c hc

theorem trimStart_append_of_blank {lead : Text} (h : Blank lead) (t : Text) :
    trimStart (lead ++ t) = trimStart t :=
  List.dropWhile_append_of_pos h

theorem trimStart_eq_self {t : Text} (h : ∀ c, t.head? = some c → isBlank c = false) :
    trimStart t = t := by
  cases t with
  | nil => rfl
  | cons c t => simp [trimStart, h c rfl]

theorem head?_trimStart {t : Text} {c : Char} (h : (trimStart t).head? = some c) :
    isBlank c = false :=
  head?_dropWhile_stop h

/-- Blanks and then a text that begins with a visible character can be read in one way only. -/
theorem trimStart_eq_iff {t rest : Text} (h : ∀ c, rest.head? = some c → isBlank c = false) :
    trimStart t = rest ↔ ∃ lead, Blank lead ∧ t = lead ++ rest := by
  constructor
  · rintro rfl
    exact exists_trimStart t
  · rintro ⟨lead, hlead, rfl⟩
    rw [trimStart_append_of_blank hlead, trimStart_eq_self h]

theorem trimStart_eq_nil_iff {t : Text} : trimStart t = [] ↔ Blank t := by
  rw [trimStart_eq_iff (by simp)]
  constructor
  · rintro ⟨lead, hlead, rfl⟩
    simpa using hlead
  · exact fun h => ⟨t, h, by simp⟩

theorem trimStart_append {t : Text} (h : ¬Blank t) (s : Text) :
    trimStart (t ++ s) = trimStart t ++ s := by
  obtain ⟨lead, hlead, ht⟩ := exists_trimStart t
  have ne : trimStart t ≠ [] := mt trimStart_eq_nil_iff.1 h
  rw [trimStart_eq_iff]
  · refine ⟨lead, hlead, ?_⟩
    rw [← List.append_assoc, ← ht]
  · intro c hc
    rw [List.head?_append_of_ne_nil _ ne] at hc
    exact head?_trimStart hc

theorem trimEnd_eq_reverse (t : Text) : trimEnd t = (trimStart t.reverse).reverse := trimEnd_eq t

theorem exists_trimEnd (t : Text) : ∃ tail, Blank tail ∧ t = trimEnd t ++ tail := by
  obtain ⟨lead, hlead, ht⟩ := exists_trimStart t.reverse
  refine ⟨lead.reverse, hlead.reverse, ?_⟩
  rw [trimEnd_eq_reverse, ← List.reverse_append, ← ht, List.reverse_reverse]

/-- A text that ends with a visible character, and then blanks, can be read in one way only. -/
theorem trimEnd_eq_iff {t front : Text} (h : ∀ c, front.getLast? = some c → isBlank c = false) :
    trimEnd t = front ↔ ∃ tail, Blank tail ∧ t = front ++ tail := by
  rw [trimEnd_eq_reverse, List.reverse_eq_iff, trimStart_eq_iff (by simpa using h)]
  constructor
  · rintro ⟨lead, hlead, ht⟩
    refine ⟨lead.reverse, hlead.reverse, ?_⟩
    rw [← List.reverse_reverse t, ht, List.reverse_append, List.reverse_reverse]
  · rintro ⟨tail, htail, rfl⟩
    exact ⟨tail.reverse, htail.reverse, List.reverse_append⟩

theorem trimEnd_append_of_blank {tail : Text} (h : Blank tail) (t : Text) :
    trimEnd (t ++ tail) = trimEnd t := by
  rw [trimEnd_eq_reverse, trimEnd_eq_reverse, List.reverse_append,
    trimStart_append_of_blank h.reverse]

theorem trimEnd_append {s : Text} (h : ¬Blank s) (t : Text) :
    trimEnd (t ++ s) = t ++ trimEnd s := by
  have hs : ¬Blank s.reverse := fun k => h (by simpa using k.reverse)
  rw [trimEnd_eq_reverse, trimEnd_eq_reverse, List.reverse_append, trimStart_append hs,
    List.reverse_append, List.reverse_reverse]

theorem trim_append_of_blank {lead tail : Text} (hlead : Blank lead) (htail : Blank tail)
    (t : Text) : trim (lead ++ t ++ tail) = trim t := by
  by_cases h : Blank t
  · have blank : Blank (lead ++ t ++ tail) := by simp [hlead, h, htail]
    rw [trim, trim, trimStart_eq_nil_iff.2 blank, trimStart_eq_nil_iff.2 h]
  · rw [trim, List.append_assoc, trimStart_append_of_blank hlead, trimStart_append h,
      trimEnd_append_of_blank htail, trim]

theorem trim_append {s t : Text} (hs : ¬Blank s) (ht : ¬Blank t) :
    trim (s ++ t) = trimStart s ++ trimEnd t := by
  rw [trim, trimStart_append hs, trimEnd_append ht]

theorem mem_of_mem_trimEnd {t : Text} {c : Char} (h : c ∈ trimEnd t) : c ∈ t := by
  obtain ⟨tail, -, ht⟩ := exists_trimEnd t
  rw [ht]
  exact List.mem_append_left _ h

theorem exists_trim (t : Text) :
    ∃ lead tail, Blank lead ∧ Blank tail ∧ t = lead ++ trim t ++ tail := by
  obtain ⟨lead, hlead, ht⟩ := exists_trimStart t
  obtain ⟨tail, htail, hs⟩ := exists_trimEnd (trimStart t)
  refine ⟨lead, tail, hlead, htail, ?_⟩
  rw [trim, List.append_assoc, ← hs, ← ht]

def Tight (t : Text) : Prop :=
  ∀ c, t.head? = some c ∨ t.getLast? = some c → isBlank c = false

theorem getLast?_trimEnd {t : Text} {c : Char} (h : (trimEnd t).getLast? = some c) :
    isBlank c = false := by
  rw [trimEnd_eq_reverse, List.getLast?_reverse] at h
  exact head?_trimStart h

theorem head?_trimEnd {t : Text} {c : Char} (h : (trimEnd t).head? = some c) :
    t.head? = some c := by
  obtain ⟨tail, -, ht⟩ := exists_trimEnd t
  rw [ht, List.head?_append, h, Option.some_or]

theorem tight_trim (t : Text) : Tight (trim t) := by
  rintro c (first | last)
  · exact head?_trimStart (head?_trimEnd first)
  · exact getLast?_trimEnd last

/-- Blanks around a text that has none at its ends can be read in one way only. -/
theorem trim_eq_iff {t s : Text} :
    trim t = s ↔ Tight s ∧ ∃ lead tail, Blank lead ∧ Blank tail ∧ t = lead ++ s ++ tail := by
  constructor
  · rintro rfl
    exact ⟨tight_trim t, exists_trim t⟩
  · rintro ⟨tight, lead, tail, hlead, htail, rfl⟩
    have front : trimStart s = s := trimStart_eq_self fun c hc => tight c (.inl hc)
    have back : trimEnd s = s :=
      (trimEnd_eq_iff fun c hc => tight c (.inr hc)).2 ⟨[], blank_nil, by simp⟩
    rw [trim_append_of_blank hlead htail, trim, front, back]

theorem trim_eq_nil_iff {t : Text} : trim t = [] ↔ Blank t := by
  rw [trim_eq_iff]
  constructor
  · rintro ⟨-, lead, tail, hlead, htail, rfl⟩
    simp [hlead, htail]
  · exact fun h => ⟨by simp [Tight], t, [], h, blank_nil, by simp⟩

theorem trim_trim (t : Text) : trim (trim t) = trim t := by
  obtain ⟨lead, tail, hlead, htail, ht⟩ := exists_trim t
  conv_rhs => rw [ht, trim_append_of_blank hlead htail]

/-- A part cannot begin in a row that does not hold its first character. -/
theorem infix_append_of_not_mem {α : Type*} {first : α} {part lead : List α} (h : first ∉ lead)
    (t : List α) : first :: part <:+: lead ++ t ↔ first :: part <:+: t := by
  induction lead with
  | nil => rfl
  | cons c lead ih =>
    rw [List.cons_append, List.infix_cons_iff, ih fun m => h (List.mem_cons_of_mem c m),
      or_iff_right]
    intro start
    exact h ((List.cons_prefix_cons.1 start).1 ▸ List.mem_cons_self)

/-- A part with visible ends stands in a text when it stands in the trimmed text. -/
theorem infix_trim_iff {first last : Char} {part : Text} (hfirst : isBlank first = false)
    (hlast : isBlank last = false) (t : Text) :
    first :: (part ++ [last]) <:+: trim t ↔ first :: (part ++ [last]) <:+: t := by
  obtain ⟨lead, tail, hlead, htail, ht⟩ := exists_trim t
  have back : (first :: (part ++ [last])).reverse = last :: (part.reverse ++ [first]) := by simp
  conv_rhs =>
    rw [ht, List.append_assoc, infix_append_of_not_mem (not_mem_of_class hfirst hlead)]
  calc first :: (part ++ [last]) <:+: trim t
      ↔ last :: (part.reverse ++ [first]) <:+: (trim t).reverse := by
        rw [← back, List.reverse_infix]
    _ ↔ last :: (part.reverse ++ [first]) <:+: tail.reverse ++ (trim t).reverse :=
        (infix_append_of_not_mem (not_mem_of_class hlast htail.reverse) _).symm
    _ ↔ first :: (part ++ [last]) <:+: trim t ++ tail := by
        rw [← back, ← List.reverse_append, List.reverse_infix]

end LazyFields.Text
