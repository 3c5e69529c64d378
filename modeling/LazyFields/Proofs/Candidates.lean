import LazyFields.Proofs.NameMap
import LazyFields.Proofs.Selection

/-!
# Candidates as sets of pairs

A set of candidates is decided by its pairs.  The union of two sets holds the pairs of either.
-/
namespace LazyFields.Candidates

def pairs (c : Candidates) : List (Text × Text) :=
  c.byMessage.toList.flatMap fun e => e.2.toList.map fun f => (e.1, f)

def union (c d : Candidates) : Candidates := d.pairs.foldl (fun c p => c.insert p.1 p.2) c

theorem mem_pairs {c : Candidates} {m f : Text} : (m, f) ∈ c.pairs ↔ (m, f) ∈ c := by
  simp only [pairs, mem_iff, fields?, NameMap.find?_eq_some_iff, List.mem_flatMap, List.mem_map,
    Prod.mk.injEq, Prod.exists]
  constructor
  · rintro ⟨m, fields, hentry, f, hf, rfl, rfl⟩
    exact ⟨fields, hentry, hf⟩
  · rintro ⟨fields, hentry, hf⟩
    exact ⟨m, fields, hentry, f, hf, rfl, rfl⟩

theorem nodup_pairs (c : Candidates) : c.pairs.Nodup := by
  have distinct : (c.byMessage.toList.map Prod.fst).Nodup := c.byMessage.ascending.nodup
  refine List.nodup_flatMap.2 ⟨fun e _ => ?_, ?_⟩
  · exact e.2.ascending.nodup.map (Prod.mk_right_injective e.1)
  · refine (List.pairwise_map.1 distinct).imp fun {d e} ne p hd he => ?_
    obtain ⟨f, -, rfl⟩ := List.mem_map.1 hd
    obtain ⟨g, -, same⟩ := List.mem_map.1 he
    exact ne (congrArg Prod.fst same).symm

theorem length_pairs (c : Candidates) : c.pairs.length = c.total := by
  rw [pairs, List.length_flatMap, total, List.sum_eq_foldr, List.foldr_map]
  simp [NameSet.size]

theorem mem_foldl_insert {ps : List (Text × Text)} {c : Candidates} {m f : Text} :
    (m, f) ∈ ps.foldl (fun c p => c.insert p.1 p.2) c ↔ (m, f) ∈ c ∨ (m, f) ∈ ps := by
  induction ps generalizing c with
  | nil => simp
  | cons p ps ih =>
    rw [List.foldl_cons, ih, mem_insert, List.mem_cons, Prod.ext_iff, or_assoc, or_left_comm]

@[simp] theorem mem_union {c d : Candidates} {m f : Text} :
    (m, f) ∈ c.union d ↔ (m, f) ∈ c ∨ (m, f) ∈ d := by
  rw [union, mem_foldl_insert, mem_pairs]

theorem fields?_of_forall_mem {c d : Candidates} (h : ∀ p, p ∈ c ↔ p ∈ d) {m : Text}
    {fields : NameSet} (hfields : c.fields? m = some fields) : d.fields? m = some fields := by
  have inhabited : fields.toList ≠ [] :=
    c.inhabited (m, fields) (NameMap.find?_eq_some_iff.1 hfields)
  obtain ⟨f, hf⟩ := List.exists_mem_of_ne_nil _ inhabited
  obtain ⟨fields', hfields', -⟩ := (h (m, f)).1 ⟨fields, hfields, hf⟩
  have same : fields' = fields := NameSet.ext_mem fun g => by
    have := h (m, g)
    rw [mem_iff, mem_iff, hfields, hfields'] at this
    simpa using this.symm
  rw [hfields', same]

theorem ext_mem {c d : Candidates} (h : ∀ p, p ∈ c ↔ p ∈ d) : c = d := by
  have byMessage : c.byMessage = d.byMessage := NameMap.ext_find? fun m =>
    Option.ext fun fields =>
      ⟨fields?_of_forall_mem h, fields?_of_forall_mem fun p => (h p).symm⟩
  cases c
  cases d
  cases byMessage
  rfl

theorem union_comm (c d : Candidates) : c.union d = d.union c :=
  ext_mem fun _ => mem_union.trans (or_comm.trans mem_union.symm)

end LazyFields.Candidates
