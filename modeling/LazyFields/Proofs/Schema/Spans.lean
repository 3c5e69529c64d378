import LazyFields.Proofs.Schema.Reading

/-!
# Messages as spans of lines

A message is a span of lines: from a line that opens a message to the first line after it where as
many braces have been closed as opened.  The spans of a schema follow one another, each begins at
the first opening line behind the span before it, and the first one without an end is the end of
them.  Any lines have spans in exactly one way.
-/
namespace LazyFields.Schema
open Text

def trimmedLines (content : Text) : List Text := (splitOn '\n' content).map trim

def openedAt (ls : List Text) (i : Nat) : Option Text := ls[i]?.bind messageOpener?

def depthAfter (ls : List Text) (i k : Nat) : Int :=
  1 + ∑ n ∈ Finset.Ioc i k, braceBalance (ls[n]?.getD [])

/-- Line `i` is the first from `start` on that opens a message. -/
structure OpensFirst (ls : List Text) (start i : Nat) (message : Text) : Prop where
  le : start ≤ i
  opens : openedAt ls i = some message
  first : ∀ k, start ≤ k → k < i → openedAt ls k = none

/-- Line `j` is the first after line `i` at depth zero. -/
structure ClosesFirst (ls : List Text) (i j : Nat) : Prop where
  lt : i < j
  exists_line : j < ls.length
  closes : depthAfter ls i j = 0
  first : ∀ k, i < k → k < j → depthAfter ls i k ≠ 0

structure Span where
  message : Text
  opener : Nat
  closer : Nat

inductive Spans (ls : List Text) : (start : Nat) → List Span → Prop
  | done {start : Nat} (none_opens : ∀ i, start ≤ i → openedAt ls i = none) : Spans ls start []
  | unclosed {start i : Nat} {m : Text} (opens : OpensFirst ls start i m)
      (none_closes : ∀ j, ¬ClosesFirst ls i j) : Spans ls start []
  | closed {start i j : Nat} {m : Text} {spans : List Span} (opens : OpensFirst ls start i m)
      (closes : ClosesFirst ls i j) (rest : Spans ls (j + 1) spans) :
      Spans ls start (⟨m, i, j⟩ :: spans)

/-- The field that line `k` declares, if it can be marked lazy: the line carries no marker and is
not repeated, and the type is that of a message. -/
def declaredField? (ls : List Text) (enums : NameSet) (rules : NamingRules) (k : Nat) :
    Option Field := do
  let line ← ls[k]?
  let d ← fieldDeclaration? line
  if ¬lazyMarker <:+: line ∧ ¬repeatedKeyword <+: line ∧
      ((∃ l ∈ ls, messageOpener? l = some d.type) ∨ rules.messageSuffix <:+ d.type) ∧
      ¬isPrimitive d.type ∧ d.type ∉ enums then
    return ⟨d.name, d.type, d.ordinal, k + 1⟩
  else none

/-- The fields declared in a span at depth one, in the order of their lines. -/
def Span.fields (ls : List Text) (enums : NameSet) (rules : NamingRules) (s : Span) : List Field :=
  ((List.range s.closer).filter fun k =>
    decide (s.opener < k ∧ depthAfter ls s.opener k = 1)).filterMap (declaredField? ls enums rules)

section Determined
variable {ls : List Text} {start i i' j j' : Nat} {m m' : Text}

theorem OpensFirst.unique (h : OpensFirst ls start i m) (h' : OpensFirst ls start i' m') :
    i = i' ∧ m = m' := by
  have same : i = i' := by
    rcases Nat.lt_trichotomy i i' with lt | eq | lt
    · have none := h'.first i h.le lt
      rw [h.opens] at none
      contradiction
    · exact eq
    · have none := h.first i' h'.le lt
      rw [h'.opens] at none
      contradiction
  subst same
  exact ⟨rfl, Option.some.inj (h.opens.symm.trans h'.opens)⟩

theorem ClosesFirst.unique (h : ClosesFirst ls i j) (h' : ClosesFirst ls i j') : j = j' := by
  rcases Nat.lt_trichotomy j j' with lt | eq | lt
  · exact absurd h.closes (h'.first j h.lt lt)
  · exact eq
  · exact absurd h'.closes (h.first j' h'.lt lt)

/-- The lines decide their spans. -/
theorem Spans.unique {spans spans' : List Span} (h : Spans ls start spans)
    (h' : Spans ls start spans') : spans = spans' := by
  induction h generalizing spans' with
  | done none_opens =>
    cases h' with
    | done => rfl
    | unclosed => rfl
    | closed opens =>
      have opened := opens.opens
      rw [none_opens _ opens.le] at opened
      contradiction
  | unclosed opens none_closes =>
    cases h' with
    | done => rfl
    | unclosed => rfl
    | closed opens' closes =>
      obtain ⟨rfl, rfl⟩ := opens.unique opens'
      exact absurd closes (none_closes _)
  | closed opens closes rest ih =>
    cases h' with
    | done none_opens =>
      have opened := opens.opens
      rw [none_opens _ opens.le] at opened
      contradiction
    | unclosed opens' none_closes =>
      obtain ⟨rfl, rfl⟩ := opens.unique opens'
      exact absurd closes (none_closes _)
    | closed opens' closes' rest' =>
      obtain ⟨rfl, rfl⟩ := opens.unique opens'
      obtain rfl := closes.unique closes'
      rw [ih rest']

theorem lt_of_openedAt (h : openedAt ls i = some m) : i < ls.length := by
  by_contra beyond
  rw [openedAt, List.getElem?_eq_none (by omega)] at h
  contradiction

theorem messageOpener?_of_openedAt (hi : i < ls.length) (h : openedAt ls i = some m) :
    messageOpener? ls[i] = some m := by
  rwa [openedAt, List.getElem?_eq_getElem hi] at h

theorem exists_opensFirst {k : Nat} (le : start ≤ k) (h : openedAt ls k = some m) :
    ∃ i m, OpensFirst ls start i m := by
  have some_opens : ∃ i, start ≤ i ∧ (openedAt ls i).isSome := ⟨k, le, by simp [h]⟩
  obtain ⟨hle, hopens⟩ := Nat.find_spec some_opens
  obtain ⟨m, hm⟩ := Option.isSome_iff_exists.1 hopens
  refine ⟨Nat.find some_opens, m, hle, hm, fun n hn below => ?_⟩
  have none_opens := Nat.find_min some_opens below
  simpa [hn] using none_opens

theorem exists_closesFirst {k : Nat} (lt : i < k) (hk : k < ls.length)
    (h : depthAfter ls i k = 0) : ∃ j, ClosesFirst ls i j := by
  have some_closes : ∃ j, i < j ∧ j < ls.length ∧ depthAfter ls i j = 0 := ⟨k, lt, hk, h⟩
  obtain ⟨hlt, hj, hcloses⟩ := Nat.find_spec some_closes
  refine ⟨Nat.find some_closes, hlt, hj, hcloses, fun n hn below hzero => ?_⟩
  exact Nat.find_min some_closes below ⟨hn, by omega, hzero⟩

/-- Any lines have spans. -/
theorem exists_spans (ls : List Text) (start : Nat) : ∃ spans, Spans ls start spans := by
  induction hn : ls.length - start using Nat.strong_induction_on generalizing start with
  | _ n ih =>
    by_cases some_opens : ∃ k m, start ≤ k ∧ openedAt ls k = some m
    · obtain ⟨k, m, le, hk⟩ := some_opens
      obtain ⟨i, m, opens⟩ := exists_opensFirst le hk
      by_cases some_closes : ∃ j, ClosesFirst ls i j
      · obtain ⟨j, closes⟩ := some_closes
        have shorter : ls.length - (j + 1) < n := by
          have := opens.le
          have := closes.lt
          have := closes.exists_line
          omega
        obtain ⟨spans, rest⟩ := ih _ shorter (j + 1) rfl
        exact ⟨_, .closed opens closes rest⟩
      · exact ⟨[], .unclosed opens fun j closes => some_closes ⟨j, closes⟩⟩
    · refine ⟨[], .done fun i le => ?_⟩
      cases hi : openedAt ls i with
      | none => rfl
      | some m => exact absurd ⟨i, m, le, hi⟩ some_opens

end Determined

section Depth
variable {ls : List Text} {enums : NameSet} {rules : NamingRules} {i k : Nat} {m : Text}

theorem depthAfter_self : depthAfter ls i i = 1 := by simp [depthAfter]

theorem depthAfter_succ (le : i ≤ k) (hk : k + 1 < ls.length) :
    depthAfter ls i (k + 1) = depthAfter ls i k + braceBalance ls[k + 1] := by
  simp only [depthAfter, Finset.sum_Ioc_succ_top le, List.getElem?_eq_getElem hk, Option.getD_some]
  omega

theorem Span.fields_start : Span.fields ls enums rules ⟨m, i, i + 1⟩ = [] := by
  have none_between : ((List.range (i + 1)).filter fun k =>
      decide (i < k ∧ depthAfter ls i k = 1)) = [] := by
    rw [List.filter_eq_nil_iff]
    intro k hk
    have below := List.mem_range.1 hk
    rw [decide_eq_true_eq]
    omega
  rw [Span.fields, none_between]
  rfl

theorem Span.fields_succ (lt : i < k) : Span.fields ls enums rules ⟨m, i, k + 1⟩ =
    Span.fields ls enums rules ⟨m, i, k⟩ ++
      if depthAfter ls i k = 1 then (declaredField? ls enums rules k).toList else [] := by
  simp only [Span.fields, List.range_succ, List.filter_append, List.filterMap_append]
  congr 1
  by_cases hdepth : depthAfter ls i k = 1
  · rw [if_pos hdepth, List.filter_cons_of_pos (by simp [lt, hdepth]), List.filter_nil]
    cases hfield : declaredField? ls enums rules k with
    | none => simp [hfield]
    | some g => simp [hfield]
  · simp [hdepth]

end Depth

end LazyFields.Schema
