import LazyFields.Proofs.Schema.Spans

/-!
# Depth in messages

Outside every message the depth of braces is zero, and inside one it never is.  It is positive
there as long as no line closes more braces than are open.  A line that does leaves its message
open at a negative depth, and what follows is taken for more of its body.
-/
namespace LazyFields.Schema
open Text

namespace Nesting

def Positive (here : Nesting) : Prop := ∀ m d, here = .inside m d → 1 ≤ d

theorem positive_outside : Positive .outside := by
  intro m d h
  contradiction

theorem positive_step {here : Nesting} {line : Text}
    (enough : ∀ m d, here = .inside m d → 0 ≤ d + braceBalance line) :
    (here.step line).2.Positive := by
  obtain ⟨-, -, hs⟩ | ⟨m, -, -, hs⟩ | ⟨m, d, -, -, hs⟩ | ⟨m, d, depth, hhere, hdepth, hne, hs⟩ :=
    here.step_cases line
  all_goals rw [hs]
  · exact positive_outside
  · rintro m' d' ⟨⟩
    exact le_rfl
  · exact positive_outside
  · rintro m' d' ⟨⟩
    have := enough m d hhere
    omega

end Nesting

/-- Line `i` stands in the message, and so many braces are open before it. -/
def StandsIn (ls : List Text) (i : Nat) (m : Text) (d : Int) : Prop :=
  Nesting.after .outside (ls.take i) = .inside m d

instance (ls : List Text) (i : Nat) (m : Text) (d : Int) : Decidable (StandsIn ls i m d) :=
  inferInstanceAs (Decidable (_ = _))

/-- Line `i` stands in a message and closes at least as many braces as are open before it. -/
def ClosesAll (ls : List Text) (i : Nat) (m : Text) : Prop :=
  ∃ line d, ls[i]? = some line ∧ StandsIn ls i m d ∧ d + braceBalance line ≤ 0

def Overcloses (ls : List Text) (i : Nat) : Prop :=
  ∃ line m d, ls[i]? = some line ∧ StandsIn ls i m d ∧ d + braceBalance line < 0

/-- Inside a message some brace is open: before each line and after the last one, and at each line
of a body.  A line that closes them all ends the message, and the next line that opens a message
is told as its opening. -/
structure PositiveDepth (ls : List Text) : Prop where
  inside : ∀ i m d, StandsIn ls i m d → 1 ≤ d
  body : ∀ (i : Nat) d next, (Nesting.trace .outside ls)[i]? = some (.body d, next) → 1 ≤ d
  closes : ∀ i m, ClosesAll ls i m → (Nesting.trace .outside ls)[i]? = some (.closed m, .outside)
  reopens : ∀ i m, ClosesAll ls i m → ∀ j m', OpensFirst ls (i + 1) j m' →
    (Nesting.trace .outside ls)[j]? = some (.opened m', .inside m' 1)

section Depth
variable {ls : List Text} {i j start : Nat} {line m : Text} {d : Int}

theorem StandsIn.unique {m' : Text} {d' : Int} (h : StandsIn ls i m d) (h' : StandsIn ls i m' d') :
    m = m' ∧ d = d' :=
  Nesting.inside.inj (h.symm.trans h')

theorem StandsIn.trace_eq (h : StandsIn ls i m d) (hline : ls[i]? = some line) :
    (Nesting.trace .outside ls)[i]? = some ((Nesting.inside m d).step line) := by
  rw [Nesting.getElem?_trace, hline, h]
  rfl

/-- Depth zero is the depth outside, and no other. -/
theorem message?_eq_none_iff (ls : List Text) (i : Nat) :
    (Nesting.after .outside (ls.take i)).message? = none ↔
      (Nesting.after .outside (ls.take i)).depth = 0 := by
  have apart : ∀ m, Nesting.after .outside (ls.take i) ≠ .inside m 0 := by
    refine Nesting.after_take_induction (P := fun here => ∀ m, here ≠ .inside m 0) (by simp) ?_ i
    exact fun _ line _ _ m => Nesting.step_ne_inside_zero _ line m
  cases here : Nesting.after .outside (ls.take i) with
  | outside => exact iff_of_true rfl rfl
  | inside m d =>
    rw [here] at apart
    have unequal : d ≠ 0 := fun zero => apart m (by rw [zero])
    simpa [Nesting.message?, Nesting.depth] using unequal

theorem positive_after (balanced : ∀ i, ¬Overcloses ls i) (i : Nat) :
    (Nesting.after .outside (ls.take i)).Positive := by
  refine Nesting.after_take_induction Nesting.positive_outside (fun i line hline _ => ?_) i
  refine Nesting.positive_step fun m d here => ?_
  by_contra beyond
  exact balanced i ⟨line, m, d, hline, here, by omega⟩

/-- Between messages the walk stays outside until a line opens the next one. -/
theorem after_of_none_opens (here : Nesting.after .outside (ls.take start) = .outside)
    (le : start ≤ j) (none_opens : ∀ k, start ≤ k → k < j → openedAt ls k = none) :
    Nesting.after .outside (ls.take j) = .outside := by
  induction j, le using Nat.le_induction with
  | base => exact here
  | succ j le ih =>
    have outside := ih fun k hle hlt => none_opens k hle (by omega)
    cases hline : ls[j]? with
    | none => rwa [List.take_add_one, hline, Option.toList_none, List.append_nil]
    | some line =>
      have unopened := none_opens j le (Nat.lt_succ_self j)
      rw [openedAt, hline, Option.bind_some] at unopened
      rw [Nesting.after_take_succ hline, outside, Nesting.step, unopened]

theorem OpensFirst.trace_eq (h : OpensFirst ls start i m)
    (here : Nesting.after .outside (ls.take start) = .outside) :
    (Nesting.trace .outside ls)[i]? = some (.opened m, .inside m 1) := by
  have opens := h.opens
  rw [openedAt, Option.bind_eq_some_iff] at opens
  obtain ⟨line, hline, opener⟩ := opens
  rw [Nesting.getElem?_trace, hline, after_of_none_opens here h.le h.first, Option.map_some,
    Nesting.step, opener]

theorem ClosesAll.ends (h : ClosesAll ls i m) (balanced : ¬Overcloses ls i) :
    (Nesting.trace .outside ls)[i]? = some (.closed m, .outside) ∧
      Nesting.after .outside (ls.take (i + 1)) = .outside := by
  obtain ⟨line, d, hline, here, all⟩ := h
  have even : d + braceBalance line = 0 := by
    by_contra other
    exact balanced ⟨line, m, d, hline, here, by omega⟩
  have step : (Nesting.inside m d).step line = (.closed m, .outside) := by
    simp [Nesting.step, even]
  refine ⟨by rw [here.trace_eq hline, step], ?_⟩
  rw [Nesting.after_take_succ hline, here, step]

end Depth

/-- Outside every message, and only there, the depth is zero.  Inside messages it is positive, and
each line that closes all braces ends its message, exactly when no line closes more braces than are
open. -/
theorem positiveDepth_iff (ls : List Text) :
    (∀ i, (Nesting.after .outside (ls.take i)).message? = none ↔
      (Nesting.after .outside (ls.take i)).depth = 0) ∧
    (PositiveDepth ls ↔ ∀ i, ¬Overcloses ls i) := by
  refine ⟨message?_eq_none_iff ls, ?_, fun balanced => ?_⟩
  · rintro positive i ⟨line, m, d, hline, here, beyond⟩
    have ends := positive.closes i m ⟨line, d, hline, here, beyond.le⟩
    have step : (Nesting.inside m d).step line =
        (.body (d + braceBalance line), .inside m (d + braceBalance line)) := by
      simp [Nesting.step, beyond.ne]
    rw [here.trace_eq hline, step] at ends
    simp at ends
  · refine ⟨fun i m d here => positive_after balanced i m d here, fun i d next body => ?_,
      fun i m all => (all.ends (balanced i)).1,
      fun i m all j m' opens => opens.trace_eq (all.ends (balanced i)).2⟩
    obtain ⟨m, rfl⟩ := Nesting.exists_inside_of_trace body
    rw [Nesting.getElem?_trace, Option.map_eq_some_iff] at body
    obtain ⟨line, hline, step⟩ := body
    refine positive_after balanced (i + 1) m d ?_
    rw [Nesting.after_take_succ hline, step]

/-- A message whose opening line opens two braces, of which one is counted, and whose last line
closes two.  Another message follows. -/
def twiceClosed : List Text :=
  ["message A \x7b message B \x7b", "C c = 1;", "\x7d\x7d", "message D \x7b", "C c = 1;",
    "\x7d"].map String.toList

/-- The last line leaves the message open at depth −1, and the opening of the next one ends it. -/
theorem not_positiveDepth_twiceClosed : ¬PositiveDepth twiceClosed ∧
    (Nesting.trace .outside twiceClosed)[2]? = some (.body (-1), .inside "A".toList (-1)) ∧
    (Nesting.trace .outside twiceClosed)[3]? = some (.closed "A".toList, .outside) := by
  have left : (Nesting.trace .outside twiceClosed)[2]? =
      some (.body (-1), .inside "A".toList (-1)) := by decide
  refine ⟨fun positive => ?_, left, by decide⟩
  exact absurd (positive.body 2 (-1) _ left) (by decide)

end LazyFields.Schema
