import LazyFields.Toml.Document
import Mathlib

/-!
# Integers of values

Every integer of a value that is read has 64 bits, however deep it stands in arrays and inline
tables.
-/
namespace LazyFields.Toml

/-- Every integer in the value has 64 bits. -/
inductive Value.Bounded : Value → Prop
  | string {t : Text} : Bounded (.string t)
  | integer {n : Int} (low : Int64.minValue.toInt ≤ n) (high : n ≤ Int64.maxValue.toInt) :
      Bounded (.integer n)
  | boolean {b : Bool} : Bounded (.boolean b)
  | float {written : Text} : Bounded (.float written)
  | date {written : Text} : Bounded (.date written)
  | array {items : List Value} (each : ∀ v ∈ items, Bounded v) : Bounded (.array items)
  | table {form : TableForm} {es : Entries} (each : ∀ e ∈ es, Bounded e.2) :
      Bounded (.table form es)
  | tables {items : List Entries} (each : ∀ es ∈ items, ∀ e ∈ es, Bounded e.2) :
      Bounded (.tables items)

def BoundedEntries (es : Entries) : Prop := ∀ e ∈ es, e.2.Bounded

def ReadsBounded (read : Text → Option (Value × Text)) : Prop :=
  ∀ t v rest, read t = some (v, rest) → v.Bounded

section Atoms
variable {t rest : Text} {v : Value} {n m : Int}

theorem bounded?_eq_some (h : bounded? n = some m) : (Value.integer m).Bounded := by
  rw [bounded?, Option.ite_none_right_eq_some] at h
  cases h.2
  exact .integer h.1.1 h.1.2

theorem integer?_bounded (h : integer? t = some n) : (Value.integer n).Bounded := by
  unfold integer? at h
  split at h
  all_goals
    simp only [bind, Option.bind_eq_some_iff] at h
    cases h with
    | intro digits h => exact bounded?_eq_some h.2

theorem scalarOfRow?_bounded (h : scalarOfRow? t = some v) : v.Bounded := by
  unfold scalarOfRow? at h
  split at h
  · cases h
    exact .boolean
  split at h
  · cases h
    exact .boolean
  split at h
  · cases h
    exact .date
  split at h
  · cases h
    exact .float
  · rw [Option.map_eq_some_iff] at h
    cases h with
    | intro n h =>
      cases h.2
      exact integer?_bounded h.1

theorem readScalar?_bounded : ReadsBounded readScalar? := by
  intro t v rest h
  simp only [readScalar?] at h
  split at h
  · split at h
    · split at h
      · split at h
        · cases h
          exact .date
        · contradiction
      · cases h
        exact .date
    · cases h
      exact .date
  · simp only [bind, pure, Option.bind_eq_some_iff, Option.some.injEq] at h
    cases h with
    | intro w h =>
      cases h.2
      exact scalarOfRow?_bounded h.1

theorem readAtom?_bounded : ReadsBounded readAtom? := by
  intro t v rest h
  unfold readAtom? at h
  split at h
  · rw [Option.map_eq_some_iff] at h
    cases h with
    | intro s h =>
      cases h.2
      exact .string
  · exact readScalar?_bounded t v rest h

end Atoms

section Entries
variable {es es' : Entries} {v : Value} {key : Text}

theorem boundedEntries_nil : BoundedEntries [] := by simp [BoundedEntries]

theorem BoundedEntries.add (h : BoundedEntries es) (hv : v.Bounded) :
    BoundedEntries (es ++ [(key, v)]) := by
  intro e he
  rw [List.mem_append, List.mem_singleton] at he
  cases he with
  | inl he => exact h e he
  | inr he =>
    rw [he]
    exact hv

theorem BoundedEntries.put (h : BoundedEntries es) (hv : v.Bounded) :
    BoundedEntries (es.map fun e => if e.1 = key then (key, v) else e) := by
  intro e he
  rw [List.mem_map] at he
  cases he with
  | intro d hd =>
    rw [← hd.2]
    split
    · exact hv
    · exact h d hd.1

theorem BoundedEntries.lookup (h : BoundedEntries es) (found : es.lookup key = some v) :
    v.Bounded := by
  rw [List.lookup_eq_some_iff] at found
  obtain ⟨before, after, rfl, -⟩ := found
  exact h (key, v) (by simp)

theorem Value.Bounded.entries {form : TableForm} (h : (Value.table form es).Bounded) :
    BoundedEntries es := by
  cases h with
  | table each => exact each

theorem Value.Bounded.getLast {items : List Entries} (h : (Value.tables items).Bounded)
    (last : items.getLast? = some es) : BoundedEntries es := by
  cases h with
  | tables each => exact each es (List.mem_of_getLast? last)

theorem Value.Bounded.replaceLast {items : List Entries} (h : (Value.tables items).Bounded)
    (hes : BoundedEntries es) : (Value.tables (items.dropLast ++ [es])).Bounded := by
  cases h with
  | tables each =>
    refine .tables fun s hs => ?_
    rw [List.mem_append, List.mem_singleton] at hs
    cases hs with
    | inl hs => exact each s (List.mem_of_mem_dropLast hs)
    | inr hs =>
      rw [hs]
      exact hes

theorem assign_bounded (hv : v.Bounded) {path : List Text} (h : BoundedEntries es)
    (assigned : assign key v path es = some es') : BoundedEntries es' := by
  induction path generalizing es es' with
  | nil =>
    simp only [assign, Option.ite_none_left_eq_some, Option.some.injEq] at assigned
    rw [← assigned.2]
    exact h.add hv
  | cons step path ih =>
    simp only [assign] at assigned
    split at assigned
    · simp only [bind, pure, Option.bind_eq_some_iff, Option.some.injEq] at assigned
      obtain ⟨sub, hsub, rfl⟩ := assigned
      exact h.add (.table (ih boundedEntries_nil hsub))
    · rename_i found
      simp only [bind, pure, Option.bind_eq_some_iff, Option.some.injEq] at assigned
      obtain ⟨sub, hsub, rfl⟩ := assigned
      exact h.put (.table (ih (h.lookup found).entries hsub))
    · rename_i found
      split at assigned
      · contradiction
      · simp only [bind, pure, Option.bind_eq_some_iff, Option.some.injEq] at assigned
        obtain ⟨sub, hsub, rfl⟩ := assigned
        exact h.put (.table (ih (h.lookup found).entries hsub))
    · rename_i found
      split at assigned
      · contradiction
      · simp only [bind, pure, Option.bind_eq_some_iff, Option.some.injEq] at assigned
        obtain ⟨last, hlast, sub, hsub, rfl⟩ := assigned
        have bounded := h.lookup found
        exact h.put (bounded.replaceLast (ih (bounded.getLast hlast) hsub))
    · contradiction

end Entries

section Values
variable {read : Text → Option (Value × Text)}

theorem readItems?_bounded (hread : ReadsBounded read) {fuel : Nat} {items vs : List Value}
    {t rest : Text} (h : ∀ v ∈ items, v.Bounded)
    (result : readItems? read fuel items t = some (vs, rest)) : ∀ v ∈ vs, v.Bounded := by
  induction fuel generalizing items t with
  | zero => contradiction
  | succ fuel ih =>
    have more {v : Value} {t s : Text} (hv : read t = some (v, s)) :
        ∀ w ∈ v :: items, w.Bounded := by
      rw [List.forall_mem_cons]
      exact ⟨hread _ _ _ hv, h⟩
    simp only [readItems?, bind, pure, Option.bind_eq_some_iff] at result
    obtain ⟨s, -, result⟩ := result
    split at result
    · cases result
      simpa using h
    · rw [Option.bind_eq_some_iff] at result
      obtain ⟨⟨v, s⟩, hv, result⟩ := result
      rw [Option.bind_eq_some_iff] at result
      obtain ⟨u, -, result⟩ := result
      split at result
      · exact ih (more hv) result
      · cases result
        simpa only [List.mem_reverse] using more hv
      · contradiction

theorem readPairs?_bounded (hread : ReadsBounded read) {fuel : Nat} {es es' : Entries}
    {t rest : Text} (h : BoundedEntries es)
    (result : readPairs? read fuel es t = some (es', rest)) : BoundedEntries es' := by
  induction fuel generalizing es t with
  | zero => contradiction
  | succ fuel ih =>
    simp only [readPairs?, bind, pure, Option.bind_eq_some_iff] at result
    obtain ⟨⟨⟨path, key⟩, s⟩, -, u, -, ⟨v, w⟩, hv, sub, hsub, result⟩ := result
    have next := assign_bounded (hread _ _ _ hv) h hsub
    split at result
    · exact ih next result
    · cases result
      exact next
    · contradiction

theorem readValue?_bounded (fuel depth : Nat) : ReadsBounded (readValue? fuel depth) := by
  -- What is read inside brackets or braces is read one level deeper.
  induction depth with
  | zero => exact readAtom?_bounded
  | succ depth ih =>
    intro t v rest h
    unfold readValue? at h
    split at h
    · rw [Option.map_eq_some_iff] at h
      obtain ⟨⟨items, s⟩, result, eq⟩ := h
      cases eq
      exact .array (readItems?_bounded ih (by simp) result)
    · split at h
      · cases h
        exact .table boundedEntries_nil
      · rw [Option.map_eq_some_iff] at h
        obtain ⟨⟨es, s⟩, result, eq⟩ := h
        cases eq
        exact .table (readPairs?_bounded ih boundedEntries_nil result)
    · exact readAtom?_bounded _ _ _ h

end Values

end LazyFields.Toml
