import LazyFields.Proofs.Schema.Grammar

/-!
# The walk over the lines

The walk over the lines of a schema looks at a line for the message it opens and for its braces
only.  Two texts whose lines agree on both are walked through alike: line by line the same role
and the same open message.
-/
namespace LazyFields.Schema
open Text

theorem foldl_braces (line : Text) (d : Int) :
    line.foldl (fun depth c => if c = '{' then depth + 1 else if c = '}' then depth - 1 else depth)
      d = d + braceBalance line := by
  induction line generalizing d with
  | nil => simp [braceBalance]
  | cons c line ih =>
    simp only [braceBalance, List.foldl_cons]
    rw [ih, ih (if c = '{' then 0 + 1 else if c = '}' then 0 - 1 else 0)]
    split
    · omega
    · split
      · omega
      · omega

theorem braceBalance_append (s t : Text) :
    braceBalance (s ++ t) = braceBalance s + braceBalance t := by
  rw [braceBalance, List.foldl_append, foldl_braces]
  rfl

theorem braceBalance_eq_zero {t : Text} (h₀ : '{' ∉ t) (h₁ : '}' ∉ t) : braceBalance t = 0 := by
  induction t with
  | nil => rfl
  | cons c t ih =>
    simp only [List.mem_cons, not_or] at h₀ h₁
    rw [← List.singleton_append, braceBalance_append, ih h₀.2 h₁.2]
    simp [braceBalance, Ne.symm h₀.1, Ne.symm h₁.1]

/-- Two lines open the same enum, the same message, and nest by the same number of braces. -/
structure SameShape (line line' : Text) : Prop where
  enum : enumOpener? line' = enumOpener? line
  message : messageOpener? line' = messageOpener? line
  braces : braceBalance line' = braceBalance line

theorem SameShape.refl (line : Text) : SameShape line line := ⟨rfl, rfl, rfl⟩

/-- What stands behind a line without bringing a brace does not change its shape. -/
theorem sameShape_append {tail tail' : Text} (h₀ : '{' ∉ tail) (h₁ : '}' ∉ tail)
    (h₀' : '{' ∉ tail') (h₁' : '}' ∉ tail') (line : Text) :
    SameShape (line ++ tail) (line ++ tail') where
  enum := by rw [enumOpener?, enumOpener?, opener?_append h₀, opener?_append h₀']
  message := by rw [messageOpener?, messageOpener?, opener?_append h₀, opener?_append h₀']
  braces := by
    rw [braceBalance_append, braceBalance_append, braceBalance_eq_zero h₀ h₁,
      braceBalance_eq_zero h₀' h₁']

/-- What is gathered from lines by their shapes is gathered from lines of the same shapes. -/
theorem filterMap_of_sameShape {p : Text → Option Text}
    (hp : ∀ line line', SameShape line line' → p line' = p line) {ls ls' : List Text}
    (h : List.Forall₂ SameShape ls ls') : ls'.filterMap p = ls.filterMap p := by
  induction h with
  | nil => rfl
  | cons hline _ ih => rw [List.filterMap_cons, List.filterMap_cons, hp _ _ hline, ih]

namespace Nesting

theorem step_congr {line line' : Text} (h : SameShape line line') (here : Nesting) :
    here.step line' = here.step line := by
  cases here with
  | outside => simp only [step, h.message]
  | inside m d => simp only [step, h.braces]

/-- Texts whose lines have the same shapes are walked through alike. -/
theorem trace_congr {ls ls' : List Text} (h : List.Forall₂ SameShape ls ls') (here : Nesting) :
    here.trace ls' = here.trace ls := by
  induction h generalizing here with
  | nil => rfl
  | cons hline _ ih => rw [trace, trace, step_congr hline, ih]

/-- All that a line can do to the walk: nothing, open a message, close the open one, or be a line
of its body at the depth after its braces. -/
theorem step_cases (here : Nesting) (line : Text) :
    (here = .outside ∧ messageOpener? line = none ∧ here.step line = (.outside, .outside)) ∨
    (∃ m, here = .outside ∧ messageOpener? line = some m ∧
      here.step line = (.opened m, .inside m 1)) ∨
    (∃ m d, here = .inside m d ∧ d + braceBalance line = 0 ∧
      here.step line = (.closed m, .outside)) ∨
    (∃ m d depth, here = .inside m d ∧ d + braceBalance line = depth ∧ depth ≠ 0 ∧
      here.step line = (.body depth, .inside m depth)) := by
  cases here with
  | outside =>
    cases h : messageOpener? line with
    | none => exact .inl ⟨rfl, rfl, by simp [step, h]⟩
    | some m => exact .inr (.inl ⟨m, rfl, rfl, by simp [step, h]⟩)
  | inside m d =>
    by_cases h : d + braceBalance line = 0
    · exact .inr (.inr (.inl ⟨m, d, rfl, h, by simp [step, h]⟩))
    · exact .inr (.inr (.inr ⟨m, d, _, rfl, rfl, h, by simp [step, h]⟩))

theorem length_trace (here : Nesting) (ls : List Text) : (here.trace ls).length = ls.length := by
  induction ls generalizing here with
  | nil => rfl
  | cons line ls ih => simp [Nesting.trace, ih]

def after (here : Nesting) (ls : List Text) : Nesting :=
  ls.foldl (fun here line => (here.step line).2) here

theorem trace_append (here : Nesting) (ls more : List Text) :
    here.trace (ls ++ more) = here.trace ls ++ (here.after ls).trace more := by
  induction ls generalizing here with
  | nil => rfl
  | cons line ls ih =>
    rw [List.cons_append, trace, ih, trace, List.cons_append]
    rfl

theorem getElem?_trace (here : Nesting) (ls : List Text) (i : Nat) :
    (here.trace ls)[i]? = ls[i]?.map (here.after (ls.take i)).step := by
  induction ls generalizing here i with
  | nil => rfl
  | cons line ls ih =>
    cases i with
    | zero => rfl
    | succ i => exact ih (here.step line).2 i

theorem after_take_succ {ls : List Text} {i : Nat} {line : Text} (h : ls[i]? = some line)
    (here : Nesting) : here.after (ls.take (i + 1)) = ((here.after (ls.take i)).step line).2 := by
  rw [List.take_add_one, h, after, List.foldl_append]
  rfl

/-- What holds at the start of a walk and is kept by each of its steps holds after some lines. -/
theorem after_take_induction {P : Nesting → Prop} {here : Nesting} {ls : List Text}
    (start : P here) (kept : ∀ i line, ls[i]? = some line → P (here.after (ls.take i)) →
      P ((here.after (ls.take i)).step line).2) (i : Nat) : P (here.after (ls.take i)) := by
  induction i with
  | zero => exact start
  | succ i ih =>
    cases hline : ls[i]? with
    | none => rwa [List.take_add_one, hline, Option.toList_none, List.append_nil]
    | some line =>
      rw [after_take_succ hline]
      exact kept i line hline ih

/-- Where a line is a line of a body, the message of the body is open. -/
theorem exists_inside_of_trace {here next : Nesting} {ls : List Text} {i : Nat} {depth : Int}
    (h : (here.trace ls)[i]? = some (.body depth, next)) : ∃ m, next = .inside m depth := by
  rw [getElem?_trace, Option.map_eq_some_iff] at h
  obtain ⟨line, -, h⟩ := h
  obtain ⟨-, -, hs⟩ | ⟨m, -, -, hs⟩ | ⟨m, d, -, -, hs⟩ | ⟨m, d, depth', -, -, -, hs⟩ :=
    (here.after (ls.take i)).step_cases line
  all_goals rw [hs] at h
  · simp at h
  · simp at h
  · simp at h
  · obtain ⟨hrole, rfl⟩ := Prod.mk.inj h
    exact ⟨m, by rw [LineRole.body.inj hrole]⟩

/-- A line after which no brace is open ends its message, so no walk stands in one at depth zero. -/
theorem step_ne_inside_zero (here : Nesting) (line m : Text) :
    (here.step line).2 ≠ .inside m 0 := by
  obtain ⟨-, -, hs⟩ | ⟨m, -, -, hs⟩ | ⟨m, d, -, -, hs⟩ | ⟨m, d, depth, -, -, hdepth, hs⟩ :=
    here.step_cases line
  all_goals rw [hs]
  · simp
  · simp
  · simp
  · simp [hdepth]

end Nesting

/-- Line `i`, counted from 0, is a line of the body of the message, at depth 1 after its braces. -/
def InBody (content : Text) (i : Nat) (message : Text) : Prop :=
  (Nesting.trace .outside ((lines content).map trim))[i]? = some (.body 1, .inside message 1)

instance (content : Text) (i : Nat) (message : Text) : Decidable (InBody content i message) :=
  inferInstanceAs (Decidable (_ = _))

theorem InBody.unique {content : Text} {i : Nat} {m m' : Text} (h : InBody content i m)
    (h' : InBody content i m') : m = m' := by
  rw [InBody, h] at h'
  simpa using h'

end LazyFields.Schema
