/-!
# Classes of characters given by ranges

A class is a list of inclusive ranges of code points.  Two classes are disjoint when no range of
one meets a range of the other, which is a finite test.
-/
namespace LazyFields.Text

/-- Inclusive ranges of code points. -/
abbrev Ranges := List (Nat × Nat)

namespace Ranges

def has (ranges : Ranges) (c : Char) : Bool :=
  ranges.any fun r => decide (r.1 ≤ c.toNat) && decide (c.toNat ≤ r.2)

def apart (xs ys : Ranges) : Bool :=
  xs.all fun x => ys.all fun y => decide (x.2 < y.1) || decide (y.2 < x.1)

theorem not_has_of_apart {xs ys : Ranges} (h : xs.apart ys = true) {c : Char}
    (hx : xs.has c = true) : ys.has c = false := by
  rw [Bool.eq_false_iff]
  intro hy
  simp only [has, List.any_eq_true, Bool.and_eq_true, decide_eq_true_eq] at hx hy
  obtain ⟨x, hxm, hx⟩ := hx
  obtain ⟨y, hym, hy⟩ := hy
  simp only [apart, List.all_eq_true, Bool.or_eq_true, decide_eq_true_eq] at h
  have := h x hxm y hym
  omega

end Ranges
end LazyFields.Text
