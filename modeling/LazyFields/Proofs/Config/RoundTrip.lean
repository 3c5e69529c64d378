import LazyFields.Proofs.Config.Written
import LazyFields.Proofs.Toml.DocumentIntegers

/-!
# Configurations survive writing and reading

Only a size beyond 63 bits keeps a configuration from being written, and no document describes
such a size.  What is written reads back as the configuration it was written for.
-/
namespace LazyFields
open Toml

namespace Config
variable {es : Entries} {v : Value} {n : UInt64}

theorem section?_bounded {keys : List Text} (h : section? keys v = some es) (hv : v.Bounded) :
    BoundedEntries es := by
  cases hv with
  | table each =>
    cases h
    exact each
  | array each =>
    cases h
    intro e he
    exact each e.2 (List.of_mem_zip he).2
  | tables each =>
    cases h
    intro e he
    have item := (List.of_mem_zip he).2
    rw [List.mem_map] at item
    cases item with
    | intro sub item =>
      rw [← item.2]
      exact .table (each sub item.1)
  | date =>
    cases h
    exact boundedEntries_nil
  | string => contradiction
  | integer => contradiction
  | boolean => contradiction
  | float => contradiction

theorem toNat_le_of_size? (h : size? v = some n) (hv : v.Bounded) :
    (n.toNat : Int) ≤ Int64.maxValue.toInt := by
  cases hv with
  | @integer m low high =>
    simp only [size?, Option.ite_none_right_eq_some, Option.some.injEq] at h
    have wrapped : n.toNat ≤ m.toNat := by
      rw [← h.2, UInt64.toNat_ofNat']
      exact Nat.mod_le ..
    omega
  | string => contradiction
  | boolean => contradiction
  | float => contradiction
  | date => contradiction
  | array => contradiction
  | table => contradiction
  | tables => contradiction

theorem toNat_le_of_option? {key : Text} (h : option? size? key es = some (some n))
    (bounded : BoundedEntries es) : (n.toNat : Int) ≤ Int64.maxValue.toInt := by
  unfold option? at h
  split at h
  · simp at h
  · rename_i found
    simp only [Option.map_eq_some_iff, Option.some.injEq, exists_eq_right] at h
    exact toNat_le_of_size? h (bounded.lookup found)

theorem sizeFits_of_readScan? {c : ScanConfig} (h : readScan? es = some c)
    (bounded : BoundedEntries es) : SizeFits c.maxFileSize := by
  intro n hn
  simp only [readScan?, bind, pure, Option.bind_eq_some_iff, Option.some.injEq] at h
  obtain ⟨extensions, -, qualifier, -, respect, -, extra, -, size, hsize, follow, -, rfl⟩ := h
  cases hn
  exact toNat_le_of_option? hsize bounded

theorem sizeFits_of_ofToml? {d : Text} {c : Config} (h : ofToml? d = some c) :
    SizeFits c.scan.maxFileSize := by
  simp only [ofToml?, bind, pure, Option.bind_eq_some_iff, Option.some.injEq] at h
  obtain ⟨es, hes, schema, -, scan, hscan, naming, -, rfl⟩ := h
  unfold readSection? at hscan
  split at hscan
  · cases hscan
    intro n hn
    contradiction
  · rename_i found
    rw [Option.bind_eq_some_iff] at hscan
    cases hscan with
    | intro sub hsub =>
      have bounded := section?_bounded hsub.1 ((read?_bounded hes).lookup found)
      exact sizeFits_of_readScan? hsub.2 bounded

theorem toToml_eq_ok_iff {c : Config} {t : Text} :
    c.toToml = .ok t ↔ SizeFits c.scan.maxFileSize ∧ c.document = t := by
  have fits : (c.scan.maxFileSize.all (·.toNat ≤ Int64.maxValue.toInt)) = true ↔
      SizeFits c.scan.maxFileSize := by
    cases c.scan.maxFileSize with
    | none => simp [SizeFits]
    | some n => simp [SizeFits]
  unfold toToml
  split
  · rename_i h
    rw [Except.ok.injEq]
    exact (and_iff_right (fits.1 h)).symm
  · rename_i h
    simp [mt fits.2 h]

theorem parse_eq_ok_iff {path d : Text} {c : Config} :
    parse path d = .ok c ↔ ofToml? d = some c := by
  unfold parse
  split
  · rename_i h
    simp [h]
  · rename_i h
    simp [h]

/-- A configuration can be written exactly when its size is unset or an integer of 63 bits; what is
written reads back as the configuration; and whatever was read can be written. -/
theorem parse_toToml (c : Config) :
    ((∃ t, c.toToml = .ok t) ↔ ∀ n, c.scan.maxFileSize = some n → n.toNat ≤ 2 ^ 63 - 1) ∧
      (∀ t path, c.toToml = .ok t → parse path t = .ok c) ∧
      ∀ path d, parse path d = .ok c → ∃ t, c.toToml = .ok t := by
  have greatest : Int64.maxValue.toInt = 2 ^ 63 - 1 := rfl
  refine ⟨?_, ?_, ?_⟩
  · constructor
    · rintro ⟨t, h⟩ n hn
      have le := (toToml_eq_ok_iff.1 h).1 n hn
      omega
    · intro h
      refine ⟨c.document, toToml_eq_ok_iff.2 ⟨fun n hn => ?_, rfl⟩⟩
      have le := h n hn
      omega
  · intro t path h
    have written := toToml_eq_ok_iff.1 h
    rw [parse_eq_ok_iff, ← written.2]
    exact ofToml?_document c written.1
  · intro path d h
    exact ⟨c.document, toToml_eq_ok_iff.2 ⟨sizeFits_of_ofToml? (parse_eq_ok_iff.1 h), rfl⟩⟩

end Config
end LazyFields
