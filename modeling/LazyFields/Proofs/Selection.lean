import LazyFields.Selection
import Mathlib

/-!
# What is selected

Candidates are a set of pairs of a message and a field.  A pair is selected exactly when the
message is used and no enum, and the schema keeps for it a field of this name whose accessor no
source calls.
-/
namespace LazyFields
open Schema

namespace Candidates

instance : Membership (Text × Text) Candidates :=
  ⟨fun c p => ∃ fields, c.fields? p.1 = some fields ∧ p.2 ∈ fields⟩

instance : HasSubset Candidates := ⟨fun d c => ∀ p : Text × Text, p ∈ d → p ∈ c⟩

theorem mem_iff {c : Candidates} {m f : Text} :
    (m, f) ∈ c ↔ ∃ fields, c.fields? m = some fields ∧ f ∈ fields := Iff.rfl

theorem not_mem_empty (p : Text × Text) : p ∉ (∅ : Candidates) := by
  rintro ⟨fields, h, -⟩
  cases h

theorem mem_insert {c : Candidates} {message field m f : Text} :
    (m, f) ∈ c.insert message field ↔ (m = message ∧ f = field) ∨ (m, f) ∈ c := by
  rw [mem_iff, mem_iff, fields?_insert]
  by_cases h : m = message
  · subst h
    cases hc : c.fields? m with
    | none => simp [NameSet.mem_empty]
    | some fields => simp
  · simp [h]

theorem mem_foldl_decisions {ds : List Decision} {c : Candidates} {m f : Text} :
    (m, f) ∈ ds.foldl (fun c d => if d.used then c else c.insert d.message d.field) c ↔
      (m, f) ∈ c ∨ ∃ d ∈ ds, d.used = false ∧ d.message = m ∧ d.field = f := by
  induction ds generalizing c with
  | nil => simp
  | cons d ds ih =>
    rw [List.foldl_cons, ih]
    cases hd : d.used with
    | true => simp [hd]
    | false =>
      simp only [Bool.false_eq_true, if_false, mem_insert, List.mem_cons, exists_eq_or_imp, hd,
        true_and]
      rw [or_assoc, or_left_comm, eq_comm (a := m), eq_comm (a := f)]

theorem mem_ofDecisions {ds : List Decision} {m f : Text} :
    (m, f) ∈ ofDecisions ds ↔ ∃ d ∈ ds, d.used = false ∧ d.message = m ∧ d.field = f := by
  rw [ofDecisions, mem_foldl_decisions, or_iff_right (not_mem_empty _)]

end Candidates

section Selected
variable {types accessors : NameSet} {model : Model} {m f : Text}

theorem mem_messageTypes : m ∈ messageTypes types model ↔ m ∈ types ∧ m ∉ model.enums := by
  rw [messageTypes, NameSet.mem_filter]
  simp [Model.isEnum]

theorem mem_decisions {d : Decision} :
    d ∈ decisions types model accessors ↔ ∃ m, m ∈ types ∧ m ∉ model.enums ∧
      ∃ fields, model.fields? m = some fields ∧ ∃ g ∈ fields, decideField accessors m g = d := by
  simp only [decisions, List.mem_flatMap, List.mem_map]
  refine exists_congr fun m => ?_
  rw [NameSet.mem_toList, mem_messageTypes, and_assoc]
  cases model.fields? m with
  | none => simp
  | some fields => simp

/-- A pair is selected when the message is used and no enum, and its kept declaration has a field
of this name whose accessor is not called. -/
theorem mem_select_iff : (m, f) ∈ select types model accessors ↔ m ∈ types ∧ m ∉ model.enums ∧
    (∃ fields, model.fields? m = some fields ∧ ∃ g ∈ fields, g.name = f) ∧
      accessorName f ∉ accessors := by
  rw [select, Candidates.mem_ofDecisions]
  constructor
  · rintro ⟨d, hd, unused, rfl, rfl⟩
    obtain ⟨m, hused, henum, fields, hf, g, hg, rfl⟩ := mem_decisions.1 hd
    exact ⟨hused, henum, ⟨fields, hf, g, hg, rfl⟩, by simpa [decideField] using unused⟩
  · rintro ⟨hused, henum, ⟨fields, hf, g, hg, rfl⟩, unread⟩
    refine ⟨decideField accessors m g, ?_, by simpa [decideField] using unread, rfl, rfl⟩
    exact mem_decisions.2 ⟨m, hused, henum, fields, hf, g, hg, rfl⟩

end Selected
end LazyFields
