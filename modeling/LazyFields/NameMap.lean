import LazyFields.NameSet

/-!
# Finite maps from names

A map is the list of its names with their values, in strictly ascending order of the names.
-/
namespace LazyFields

/-- A finite map from names to values. -/
structure NameMap (β : Type) where
  toList : List (Text × β)
  ascending : (toList.map Prod.fst).Pairwise (· < ·)

namespace NameMap

variable {β : Type}

theorem ascending_nil : (([] : List (Text × β)).map Prod.fst).Pairwise (· < ·) :=
  List.Pairwise.nil

def empty : NameMap β := ⟨[], ascending_nil⟩

instance : EmptyCollection (NameMap β) := ⟨empty⟩

instance : Inhabited (NameMap β) := ⟨∅⟩

instance [DecidableEq β] : DecidableEq (NameMap β) := fun s t =>
  decidable_of_iff (s.toList = t.toList) (by cases s; cases t; simp)

def find? (m : NameMap β) (n : Text) : Option β := m.toList.lookup n

/-- Puts a name and its value at their place in an ascending list, over an earlier value. -/
def place (n : Text) (v : β) : List (Text × β) → List (Text × β)
  | [] => [(n, v)]
  | e :: es =>
    match Text.order n e.1 with
    | .lt => (n, v) :: e :: es
    | .eq => (n, v) :: es
    | .gt => e :: place n v es

theorem place_cons {n : Text} {v : β} {e : Text × β} {es : List (Text × β)} :
    place n v (e :: es) =
      if n < e.1 then (n, v) :: e :: es
      else if n = e.1 then (n, v) :: es
      else e :: place n v es :=
  Text.match_order n e.1 ..

theorem map_fst_place (n : Text) (v : β) (es : List (Text × β)) :
    (place n v es).map Prod.fst = NameSet.place n (es.map Prod.fst) := by
  induction es with
  | nil => rfl
  | cons e es ih =>
    rw [place_cons, List.map_cons, NameSet.place_cons]
    split
    · rfl
    · split <;> simp_all

def insert (m : NameMap β) (n : Text) (v : β) : NameMap β :=
  ⟨place n v m.toList, map_fst_place n v m.toList ▸ NameSet.ascending_place m.ascending⟩

theorem mem_place {n : Text} {v : β} {es : List (Text × β)} {e : Text × β}
    (h : e ∈ place n v es) : e = (n, v) ∨ e ∈ es := by
  induction es with
  | nil => simpa [place] using h
  | cons d ds ih =>
    rw [place_cons] at h
    split at h
    · simpa using h
    · split at h
      · rcases List.mem_cons.1 h with h | h
        · exact .inl h
        · exact .inr (List.mem_cons_of_mem _ h)
      · rcases List.mem_cons.1 h with h | h
        · exact .inr (h ▸ List.mem_cons_self)
        · exact (ih h).imp_right (List.mem_cons_of_mem _)

theorem lookup_cons {x : Text} {e : Text × β} {es : List (Text × β)} :
    (e :: es).lookup x = if x = e.1 then some e.2 else es.lookup x := by
  obtain ⟨n, v⟩ := e
  rw [List.lookup_cons]
  by_cases h : x = n
  · simp [h]
  · simp [h, beq_eq_false_iff_ne.2 h]

theorem lookup_place {n x : Text} {v : β} {es : List (Text × β)} :
    (place n v es).lookup x = if x = n then some v else es.lookup x := by
  induction es with
  | nil => exact lookup_cons
  | cons e es ih =>
    rw [place_cons]
    split
    · exact lookup_cons
    · split
      · rename_i h
        rw [lookup_cons, lookup_cons]
        by_cases hx : x = n <;> simp [hx, ← h]
      · rename_i h
        rw [lookup_cons, lookup_cons, ih]
        by_cases hx : x = n
        · simp [hx, h]
        · simp [hx]

theorem find?_insert (m : NameMap β) (n x : Text) (v : β) :
    (m.insert n v).find? x = if x = n then some v else m.find? x :=
  lookup_place

def keys (m : NameMap β) : NameSet := ⟨m.toList.map Prod.fst, m.ascending⟩

def size (m : NameMap β) : Nat := m.toList.length

end NameMap
end LazyFields
