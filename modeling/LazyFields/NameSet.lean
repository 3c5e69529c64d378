import LazyFields.Text

/-!
# Finite sets of names

A set of names is the list of its members in strictly ascending order of their characters.  Two
sets with the same members are therefore equal.
-/
namespace LazyFields

namespace Text

theorem lt_trichotomy (a b : Text) : a < b ∨ a = b ∨ b < a := by
  by_cases h : a < b
  · exact .inl h
  · by_cases k : b < a
    · exact .inr (.inr k)
    · exact .inr (.inl (List.le_antisymm k h))

/-- How two texts compare in one pass: the first difference decides, and a text comes after what
it begins with. -/
def order : (a b : Text) → Ordering
  | [], [] => .eq
  | [], _ :: _ => .lt
  | _ :: _, [] => .gt
  | c :: a, d :: b => if c = d then order a b else if c < d then .lt else .gt

theorem order_eq_lt_iff {a b : Text} : order a b = .lt ↔ a < b := by
  fun_induction order a b with
  | case1 => simp
  | case2 => simp
  | case3 => simp
  | case4 a c b ih => simp [ih]
  | case5 c a d b h k => simp [k, List.cons_lt_cons_iff]
  | case6 c a d b h k => simp [h, k, List.cons_lt_cons_iff]

theorem order_eq_eq_iff {a b : Text} : order a b = .eq ↔ a = b := by
  fun_induction order a b with
  | case1 => simp
  | case2 => simp
  | case3 => simp
  | case4 a c b ih => simp [ih]
  | case5 c a d b h k => simp [h]
  | case6 c a d b h k => simp [h]

/-- A choice by the order of two texts is a choice by `<` and `=`. -/
theorem match_order {α : Sort _} (a b : Text) (x y z : α) :
    (match order a b with
      | .lt => x
      | .eq => y
      | .gt => z) = if a < b then x else if a = b then y else z := by
  split
  · rename_i h
    rw [if_pos (order_eq_lt_iff.1 h)]
  · rename_i h
    rw [if_neg (mt order_eq_lt_iff.2 (by simp [h])), if_pos (order_eq_eq_iff.1 h)]
  · rename_i h
    rw [if_neg (mt order_eq_lt_iff.2 (by simp [h])),
      if_neg (mt order_eq_eq_iff.2 (by simp [h]))]

end Text

/-- A finite set of names. -/
structure NameSet where
  toList : List Text
  ascending : toList.Pairwise (· < ·)

namespace NameSet

instance : DecidableEq NameSet := fun s t =>
  decidable_of_iff (s.toList = t.toList) (by cases s; cases t; simp)

instance : Membership Text NameSet := ⟨fun s n => n ∈ s.toList⟩

instance (n : Text) (s : NameSet) : Decidable (n ∈ s) :=
  inferInstanceAs (Decidable (n ∈ s.toList))

theorem mem_toList {n : Text} {s : NameSet} : n ∈ s.toList ↔ n ∈ s := Iff.rfl

def empty : NameSet := ⟨[], List.Pairwise.nil⟩

instance : EmptyCollection NameSet := ⟨empty⟩

instance : Inhabited NameSet := ⟨∅⟩

/-- Puts a name at its place in an ascending list that may hold it already. -/
def place (n : Text) : List Text → List Text
  | [] => [n]
  | m :: ms =>
    match Text.order n m with
    | .lt => n :: m :: ms
    | .eq => m :: ms
    | .gt => m :: place n ms

theorem place_cons {n m : Text} {ms : List Text} :
    place n (m :: ms) =
      if n < m then n :: m :: ms else if n = m then m :: ms else m :: place n ms :=
  Text.match_order n m ..

theorem mem_place {n x : Text} {ms : List Text} : x ∈ place n ms ↔ x = n ∨ x ∈ ms := by
  induction ms with
  | nil => simp [place]
  | cons m ms ih =>
    rw [place_cons]
    split
    · simp
    · split
      · rename_i h
        subst h
        simp
      · simp only [List.mem_cons, ih]
        exact or_left_comm

theorem ascending_place {n : Text} {ms : List Text} (h : ms.Pairwise (· < ·)) :
    (place n ms).Pairwise (· < ·) := by
  induction ms with
  | nil => simp [place]
  | cons m ms ih =>
    have ⟨hm, hms⟩ := List.pairwise_cons.1 h
    rw [place_cons]
    split
    · rename_i hn
      refine List.pairwise_cons.2 ⟨fun x hx => ?_, h⟩
      rcases List.mem_cons.1 hx with rfl | hx
      · exact hn
      · exact List.lt_trans hn (hm x hx)
    · split
      · exact h
      · rename_i h₁ h₂
        refine List.pairwise_cons.2 ⟨fun x hx => ?_, ih hms⟩
        rcases mem_place.1 hx with rfl | hx
        · exact ((Text.lt_trichotomy x m).resolve_left h₁).resolve_left h₂
        · exact hm x hx

def insert (n : Text) (s : NameSet) : NameSet := ⟨place n s.toList, ascending_place s.ascending⟩

@[simp] theorem mem_insert {n x : Text} {s : NameSet} : x ∈ s.insert n ↔ x = n ∨ x ∈ s :=
  mem_place

def ofList (names : List Text) : NameSet := names.foldl (fun s n => s.insert n) ∅

def union (s t : NameSet) : NameSet := t.toList.foldl (fun u n => u.insert n) s

def filter (p : Text → Bool) (s : NameSet) : NameSet :=
  ⟨s.toList.filter p, s.ascending.filter p⟩

def size (s : NameSet) : Nat := s.toList.length

theorem mem_empty {n : Text} : ¬n ∈ (∅ : NameSet) := List.not_mem_nil

theorem mem_foldl_insert {names : List Text} {n : Text} {s : NameSet} :
    n ∈ names.foldl (fun s n => s.insert n) s ↔ n ∈ s ∨ n ∈ names := by
  induction names generalizing s with
  | nil => simp
  | cons m names ih =>
    rw [List.foldl_cons, ih, mem_insert, List.mem_cons]
    exact or_assoc.trans or_left_comm

@[simp] theorem mem_ofList {names : List Text} {n : Text} : n ∈ ofList names ↔ n ∈ names := by
  simp [ofList, mem_foldl_insert, mem_empty]

@[simp] theorem mem_union {s t : NameSet} {n : Text} : n ∈ s.union t ↔ n ∈ s ∨ n ∈ t :=
  mem_foldl_insert

@[simp] theorem mem_filter {p : Text → Bool} {s : NameSet} {n : Text} :
    n ∈ s.filter p ↔ n ∈ s ∧ p n = true :=
  List.mem_filter

end NameSet
end LazyFields
