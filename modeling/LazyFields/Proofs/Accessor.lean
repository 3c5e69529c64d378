import LazyFields.Accessor
import LazyFields.Proofs.Schema.Grammar

/-!
# The characters of accessor names

The accessor of a field is named by letters, digits and underscores alone, so that a call of it
can be read off a source as soon as its name begins with an upper-case letter.
-/
namespace LazyFields
open Text Schema

theorem mem_of_mem_splitOn {mark : Char} {t part : Text} (h : part ∈ splitOn mark t) {c : Char}
    (hc : c ∈ part) : c ∈ t := by
  induction t generalizing part with
  | nil =>
    rw [splitOn, List.foldr_nil, List.mem_singleton] at h
    rwa [h] at hc
  | cons d t ih =>
    simp only [splitOn, List.foldr_cons] at h ih
    split at h
    · rcases List.mem_cons.1 h with rfl | h
      · simp at hc
      · exact List.mem_cons_of_mem _ (ih h hc)
    · split at h
      · obtain rfl := List.mem_singleton.1 h
        exact List.mem_cons.2 (.inl (List.mem_singleton.1 hc))
      · rename_i first parts hparts
        rw [hparts] at ih
        rcases List.mem_cons.1 h with rfl | h
        · rcases List.mem_cons.1 hc with rfl | hc
          · exact List.mem_cons_self
          · exact List.mem_cons_of_mem _ (ih List.mem_cons_self hc)
        · exact List.mem_cons_of_mem _ (ih (List.mem_cons_of_mem _ h) hc)

theorem lt_of_isWord {c : Char} (h : isWord c = true) : c.toNat < 0x80 := by
  have := (bounds_of_isTypeName (isTypeName_of_isWord h)).2
  omega

/-- Case leaves the letters, digits and underscores of ASCII among themselves. -/
theorem isWord_case {c : Char} (h : isWord c = true) :
    isWord c.toUpper = true ∧ isWord c.toLower = true := by
  have ascii : ∀ n < 0x80, isWord (Char.ofNat n) = true →
      isWord (Char.ofNat n).toUpper = true ∧ isWord (Char.ofNat n).toLower = true := by decide
  have := ascii c.toNat (lt_of_isWord h)
  rw [Char.ofNat_toNat] at this
  exact this h

theorem isWord_of_mem_capitalise {part : Text} (h : ∀ c ∈ part, isWord c = true) {c : Char}
    (hc : c ∈ capitalise part) : isWord c = true := by
  cases part with
  | nil => simp [capitalise] at hc
  | cons first rest =>
    have hfirst := h first List.mem_cons_self
    simp only [capitalise, List.mem_append, List.mem_flatMap, upperCase,
      if_pos (lt_of_isWord hfirst), List.mem_singleton] at hc
    rcases hc with rfl | ⟨d, hd, hc⟩
    · exact (isWord_case hfirst).1
    · have hword := h d (List.mem_cons_of_mem _ hd)
      rw [lowerCase, if_pos (lt_of_isWord hword), List.mem_singleton] at hc
      rw [hc]
      exact (isWord_case hword).2

theorem isWord_of_mem_accessorName {field : Text} (h : ∀ c ∈ field, isWord c = true) {c : Char}
    (hc : c ∈ accessorName field) : isWord c = true := by
  obtain ⟨part, hpart, hc⟩ := List.mem_flatMap.1 hc
  exact isWord_of_mem_capitalise (fun d hd => h d (mem_of_mem_splitOn hpart hd)) hc

end LazyFields
