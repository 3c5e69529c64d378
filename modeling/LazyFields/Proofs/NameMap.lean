import LazyFields.NameMap
import Mathlib

/-!
# Maps by their entries

Sets with the same members are equal, and so are maps that give the same value to each name.  A
change of the values of a map commutes with insertion and with look-up, and keeps the names.
-/
namespace LazyFields

theorem NameSet.ext_mem {s t : NameSet} (h : ∀ n, n ∈ s ↔ n ∈ t) : s = t := by
  obtain ⟨names, ascending⟩ := s
  obtain ⟨names', ascending'⟩ := t
  have same : names = names' := ascending.eq_of_mem_iff ascending' fun n => h n
  subst same
  rfl

theorem NameSet.ofList_append (names more : List Text) :
    ofList (names ++ more) = (ofList names).union (ofList more) :=
  NameSet.ext_mem fun n => by simp

namespace NameMap

variable {β γ : Type}

def mapValues (f : β → γ) (m : NameMap β) : NameMap γ where
  toList := m.toList.map fun e => (e.1, f e.2)
  ascending := by simpa [Function.comp_def] using m.ascending

theorem place_map (f : β → γ) (n : Text) (v : β) (es : List (Text × β)) :
    (place n v es).map (fun e => (e.1, f e.2)) =
      place n (f v) (es.map fun e => (e.1, f e.2)) := by
  induction es with
  | nil => rfl
  | cons e es ih =>
    rw [place_cons, List.map_cons, place_cons]
    split
    · rfl
    · split
      · rfl
      · rw [List.map_cons, ih]

theorem mapValues_insert (f : β → γ) (m : NameMap β) (n : Text) (v : β) :
    (m.insert n v).mapValues f = (m.mapValues f).insert n (f v) := by
  simp only [mapValues, insert, place_map]

theorem find?_mapValues (f : β → γ) (m : NameMap β) (n : Text) :
    (m.mapValues f).find? n = (m.find? n).map f := by
  obtain ⟨es, ascending⟩ := m
  simp only [find?, mapValues]
  clear ascending
  induction es with
  | nil => rfl
  | cons e es ih =>
    rw [List.map_cons, lookup_cons, lookup_cons, ih]
    split <;> rfl

theorem keys_mapValues (f : β → γ) (m : NameMap β) : (m.mapValues f).keys = m.keys := by
  simp [keys, mapValues, Function.comp_def]

theorem lookup_eq_some_iff {es : List (Text × β)} (h : (es.map Prod.fst).Pairwise (· < ·))
    {n : Text} {v : β} : es.lookup n = some v ↔ (n, v) ∈ es := by
  induction es with
  | nil => simp
  | cons e es ih =>
    obtain ⟨above, rest⟩ := List.pairwise_cons.1 h
    rw [lookup_cons, List.mem_cons]
    by_cases hn : n = e.1
    · subst hn
      have apart : (e.1, v) ∉ es := fun hv =>
        List.lt_irrefl _ (above e.1 (List.mem_map.2 ⟨_, hv, rfl⟩))
      simp [apart, Prod.ext_iff, eq_comm]
    · simp [hn, ih rest, Prod.ext_iff]

theorem find?_eq_some_iff {m : NameMap β} {n : Text} {v : β} :
    m.find? n = some v ↔ (n, v) ∈ m.toList :=
  lookup_eq_some_iff m.ascending

theorem mem_keys_iff {m : NameMap β} {n : Text} : n ∈ m.keys ↔ ∃ v, m.find? n = some v := by
  have entry : n ∈ m.keys ↔ n ∈ m.toList.map Prod.fst := Iff.rfl
  simp [entry, find?_eq_some_iff]

theorem ext_find? {m m' : NameMap β} (h : ∀ n, m.find? n = m'.find? n) : m = m' := by
  obtain ⟨es, ascending⟩ := m
  obtain ⟨es', ascending'⟩ := m'
  have entries : ∀ e, e ∈ es ↔ e ∈ es' := fun e => by
    rw [← lookup_eq_some_iff ascending, ← lookup_eq_some_iff ascending']
    exact iff_of_eq (congrArg (· = some e.2) (h e.1))
  have : Std.Irrefl fun e f : Text × β => e.1 < f.1 := ⟨fun e => List.lt_irrefl e.1⟩
  obtain rfl : es = es' :=
    (List.pairwise_map.1 ascending).eq_of_mem_iff (List.pairwise_map.1 ascending')
      fun e => entries e
  rfl

end NameMap
end LazyFields
