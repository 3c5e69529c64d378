import LazyFields.Proofs.Toml.Integers

/-!
# Integers of documents

Every integer that a document describes has 64 bits: only such integers are read, and putting the
statements together moves values without changing them.
-/
namespace LazyFields.Toml

def Statement.Bounded : Statement → Prop
  | .assign _ _ v => v.Bounded
  | .header _ _ => True
  | .arrayHeader _ _ => True

theorem readStatements?_bounded {fuel : Nat} {t : Text} {ss : List Statement}
    (h : readStatements? fuel t = some ss) : ∀ s ∈ ss, s.Bounded := by
  induction fuel generalizing t ss with
  | zero => contradiction
  | succ fuel ih =>
    unfold readStatements? at h
    split at h
    · cases h
      simp
    · exact ih h
    · exact ih h
    · simp only [bind, Option.bind_eq_some_iff] at h
      obtain ⟨u, -, h⟩ := h
      exact ih h
    · simp only [bind, pure, Option.bind_eq_some_iff, Option.some.injEq] at h
      obtain ⟨⟨⟨path, key⟩, u⟩, -, w, -, x, -, tail, htail, rfl⟩ := h
      exact List.forall_mem_cons.2 ⟨trivial, ih htail⟩
    · simp only [bind, pure, Option.bind_eq_some_iff, Option.some.injEq] at h
      obtain ⟨⟨⟨path, key⟩, u⟩, -, w, -, x, -, tail, htail, rfl⟩ := h
      exact List.forall_mem_cons.2 ⟨trivial, ih htail⟩
    · simp only [bind, pure, Option.bind_eq_some_iff, Option.some.injEq] at h
      obtain ⟨⟨⟨path, key⟩, u⟩, -, w, -, ⟨v, x⟩, hv, y, -, tail, htail, rfl⟩ := h
      exact List.forall_mem_cons.2 ⟨readValue?_bounded _ _ _ _ _ hv, ih htail⟩

variable {es es' : Entries} {key : Text}

theorem editAt_bounded {edit : Entries → Option Entries}
    (keeps : ∀ es es', BoundedEntries es → edit es = some es' → BoundedEntries es')
    {path : List Text} (h : BoundedEntries es) (edited : editAt edit path es = some es') :
    BoundedEntries es' := by
  induction path generalizing es es' with
  | nil => exact keeps es es' h edited
  | cons step path ih =>
    simp only [editAt] at edited
    split at edited
    · simp only [bind, pure, Option.bind_eq_some_iff, Option.some.injEq] at edited
      obtain ⟨sub, hsub, rfl⟩ := edited
      exact h.add (.table (ih boundedEntries_nil hsub))
    · contradiction
    · rename_i found
      simp only [bind, pure, Option.bind_eq_some_iff, Option.some.injEq] at edited
      obtain ⟨sub, hsub, rfl⟩ := edited
      exact h.put (.table (ih (h.lookup found).entries hsub))
    · rename_i found
      simp only [bind, pure, Option.bind_eq_some_iff, Option.some.injEq] at edited
      obtain ⟨last, hlast, sub, hsub, rfl⟩ := edited
      have bounded := h.lookup found
      exact h.put (bounded.replaceLast (ih (bounded.getLast hlast) hsub))
    · contradiction

theorem openTable_bounded (h : BoundedEntries es) (opened : openTable key es = some es') :
    BoundedEntries es' := by
  unfold openTable at opened
  split at opened
  · cases opened
    exact h.add (.table boundedEntries_nil)
  · rename_i found
    cases opened
    exact h.put (.table (h.lookup found).entries)
  · contradiction

theorem openArrayTable_bounded (h : BoundedEntries es) (opened : openArrayTable key es = some es') :
    BoundedEntries es' := by
  unfold openArrayTable at opened
  split at opened
  · cases opened
    exact h.add (.tables (by simp))
  · rename_i found
    cases opened
    refine h.put (.tables fun s hs => ?_)
    rw [List.mem_append, List.mem_singleton] at hs
    cases hs with
    | inl hs =>
      cases h.lookup found with
      | tables each => exact each s hs
    | inr hs =>
      rw [hs]
      exact boundedEntries_nil
  · contradiction

theorem push_bounded {a a' : Assembly} {s : Statement} (hs : s.Bounded)
    (h : BoundedEntries a.root) (pushed : a.push s = some a') : BoundedEntries a'.root := by
  cases s
  all_goals
    simp only [Assembly.push, bind, pure, Option.bind_eq_some_iff, Option.some.injEq] at pushed
    obtain ⟨root, hroot, rfl⟩ := pushed
  case assign => exact editAt_bounded (fun _ _ => assign_bounded hs) h hroot
  case header => exact editAt_bounded (fun _ _ => openTable_bounded) h hroot
  case arrayHeader => exact editAt_bounded (fun _ _ => openArrayTable_bounded) h hroot

theorem foldlM_push_bounded {ss : List Statement} (hss : ∀ s ∈ ss, s.Bounded) {a a' : Assembly}
    (h : BoundedEntries a.root) (pushed : ss.foldlM Assembly.push a = some a') :
    BoundedEntries a'.root := by
  induction ss generalizing a with
  | nil =>
    cases pushed
    exact h
  | cons s ss ih =>
    rw [List.foldlM_cons] at pushed
    simp only [bind, Option.bind_eq_some_iff] at pushed
    obtain ⟨next, hnext, pushed⟩ := pushed
    rw [List.forall_mem_cons] at hss
    exact ih hss.2 (push_bounded hss.1 h hnext) pushed

/-- Every integer that a document describes has 64 bits. -/
theorem read?_bounded {document : Text} (h : read? document = some es) : BoundedEntries es := by
  unfold read? at h
  obtain ⟨ss, hss, h⟩ := Option.bind_eq_some_iff.1 h
  obtain ⟨a, ha, h⟩ := Option.bind_eq_some_iff.1 h
  cases h
  exact foldlM_push_bounded (readStatements?_bounded hss) boundedEntries_nil ha

end LazyFields.Toml
