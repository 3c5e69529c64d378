import LazyFields.Proofs.Text.AsciiBytes
import LazyFields.Scan.Namespace

/-!
# Namespaces that are refused

Every byte of a namespace is a state of the automaton that searches for type names, and all other
states are the same for all namespaces.  A namespace is therefore refused for its length only.
-/
namespace LazyFields
open Text Ignore

theorem referenceSize_eq (qualifier : Text) :
    referenceSize qualifier = 32 * (Utf8.encode qualifier).data.toList.length + 512 := by
  have anyByte : Expression.anyByte.size false = 72 := by decide +kernel
  simp only [referenceSize, anyByte, referenceExpression, Expression.size, Expression.sizes,
    Expression.stateSize, Expression.stepSize, Expression.jumpSize, List.isEmpty_cons,
    List.length_append, List.length_cons, List.length_nil, Bool.false_eq_true, if_false]
  omega

/-- A namespace is accepted up to this number of bytes. -/
theorem qualifierRefusal?_eq_none_iff {qualifier : Text} :
    qualifierRefusal? qualifier = none ↔ (Utf8.encode qualifier).data.toList.length ≤ 327664 := by
  have limit : maxAutomatonSize = 10485760 := rfl
  rw [qualifierRefusal?, referenceSize_eq, limit]
  split_ifs with large
  · exact iff_of_false nofun (by omega)
  · exact iff_of_true rfl (by omega)

def overlong : Text := List.replicate 400000 'a'

theorem exists_refusal_overlong : ∃ detail, qualifierRefusal? overlong = some detail := by
  have ascii : ∀ c ∈ overlong, c.toNat < 0x80 := by
    intro c hc
    rw [List.eq_of_mem_replicate hc]
    decide
  have size : (Utf8.encode overlong).data.toList.length = 400000 := by
    rw [Utf8.toList_encode_of_ascii ascii, List.length_map, overlong, List.length_replicate]
  refine Option.ne_none_iff_exists'.1 fun accepted => ?_
  have bound := qualifierRefusal?_eq_none_iff.1 accepted
  omega

end LazyFields
