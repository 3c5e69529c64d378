import LazyFields.Proofs.Candidates
import LazyFields.Proofs.Text.ByteOrder

/-!
# Candidates put in one by one

Pairs that are put into an empty set in turn make up a set of exactly these pairs.  How often a pair
is put in, and when, is not to be told from the set: what can be asked of it is settled by its
pairs.
-/
namespace LazyFields.Candidates
open Text

variable {c : Candidates} {ps : List (Text × Text)} {m f : Text}

theorem isSome_fields?_iff : (c.fields? m).isSome = true ↔ ∃ f, (m, f) ∈ c := by
  rw [Option.isSome_iff_exists]
  constructor
  · rintro ⟨fields, hfields⟩
    have inhabited : fields.toList ≠ [] := c.inhabited _ (NameMap.find?_eq_some_iff.1 hfields)
    obtain ⟨f, hf⟩ := List.exists_mem_of_ne_nil _ inhabited
    exact ⟨f, fields, hfields, hf⟩
  · rintro ⟨f, fields, hfields, -⟩
    exact ⟨fields, hfields⟩

/-- No message is kept without a field, so a set without pairs keeps nothing. -/
theorem isEmpty_iff_total : c.isEmpty = true ↔ c.total = 0 := by
  rw [isEmpty, List.isEmpty_iff, ← length_pairs, List.length_eq_zero_iff, pairs,
    List.flatMap_eq_nil_iff]
  constructor
  · intro none e he
    rw [none] at he
    contradiction
  · intro none
    refine List.eq_nil_iff_forall_not_mem.2 fun e he => c.inhabited e he ?_
    exact List.map_eq_nil_iff.1 (none e he)

theorem mem_toList_iff {fs : List Text} :
    (m, fs) ∈ c.toList ↔ ∃ fields, c.fields? m = some fields ∧ fields.toList = fs := by
  simp only [toList, List.mem_map, Prod.mk.injEq, Prod.exists, fields?, NameMap.find?_eq_some_iff]
  constructor
  · rintro ⟨m, fields, entry, rfl, rfl⟩
    exact ⟨fields, entry, rfl⟩
  · rintro ⟨fields, entry, rfl⟩
    exact ⟨m, fields, entry, rfl, rfl⟩

theorem map_fst_toList (c : Candidates) :
    c.toList.map Prod.fst = c.byMessage.toList.map Prod.fst := by
  simp [toList, Function.comp_def]

/-- What has been put in is in the set, and nothing else. -/
theorem mem_ofList : (m, f) ∈ ofList ps ↔ (m, f) ∈ ps := by
  rw [ofList, mem_foldl_insert, or_iff_right (not_mem_empty _)]

theorem total_eq_card (same : ∀ m f, (m, f) ∈ c ↔ (m, f) ∈ ps) : c.total = ps.toFinset.card := by
  have pairs_eq : c.pairs.toFinset = ps.toFinset := by
    ext ⟨m, f⟩
    rw [List.mem_toFinset, List.mem_toFinset, mem_pairs, same]
  rw [← pairs_eq, List.toFinset_card_of_nodup c.nodup_pairs, length_pairs]

/-- All that can be asked of a set of candidates, as the pairs of a list settle it. -/
structure Represents (c : Candidates) (ps : List (Text × Text)) : Prop where
  isSome : ∀ m, (c.fields? m).isSome = true ↔ ∃ f, (m, f) ∈ ps
  inhabited : ∀ m fields, c.fields? m = some fields → fields ≠ ∅
  fields : ∀ m fields, c.fields? m = some fields → ∀ f, f ∈ fields ↔ (m, f) ∈ ps
  total : c.total = ps.toFinset.card
  isEmpty : c.isEmpty = true ↔ c.total = 0
  entries : ∀ m fs, (m, fs) ∈ c.toList ↔ ∃ fields, c.fields? m = some fields ∧ fields.toList = fs
  ascending : (c.toList.map Prod.fst).Pairwise fun m m' =>
    (Utf8.encode m).data.toList < (Utf8.encode m').data.toList

/-- Pairs that are put in one by one are represented by the set that they make up, and two rows of
pairs make up the same set exactly when the same pairs occur in them. -/
theorem ofList_represents (ps : List (Text × Text)) :
    (ofList ps).Represents ps ∧ ∀ qs, ofList ps = ofList qs ↔ ∀ p, p ∈ ps ↔ p ∈ qs := by
  refine ⟨⟨fun m => ?_, fun m fields h => ?_, fun m fields h f => ?_, ?_, isEmpty_iff_total,
    fun m fs => mem_toList_iff, ?_⟩, fun qs => ⟨fun same p => ?_, fun same => ?_⟩⟩
  · rw [isSome_fields?_iff]
    exact exists_congr fun f => mem_ofList
  · rintro rfl
    exact (ofList ps).inhabited _ (NameMap.find?_eq_some_iff.1 h) rfl
  · rw [← mem_ofList, mem_iff, h]
    simp
  · exact total_eq_card fun m f => mem_ofList
  · rw [map_fst_toList]
    exact (ofList ps).byMessage.ascending.imp Utf8.encode_lt_iff.2
  · obtain ⟨m, f⟩ := p
    rw [← mem_ofList, same, mem_ofList]
  · exact ext_mem fun ⟨m, f⟩ => mem_ofList.trans ((same _).trans mem_ofList.symm)

/-- A pair that is put in twice counts once, and messages come in their order. -/
example : let c := ofList ([("B", "y"), ("A", "x"), ("A", "x"), ("A", "w")].map
      fun p => (p.1.toList, p.2.toList))
    c.total = 3 ∧ c.toList.map Prod.fst = ["A".toList, "B".toList] := by decide +kernel

end LazyFields.Candidates
