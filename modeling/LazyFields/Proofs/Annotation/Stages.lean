import LazyFields.Proofs.Annotation.Rewriting
import LazyFields.Proofs.Candidates

/-!
# Annotation in stages

To annotate with one set of candidates and then with another is to annotate once with the union of
both.  The first stage keeps the walk over the lines, so the second one finds each line where it
stood.  A line that the first stage has marked is closed to the second, and on every other line
the second stage decides as it would have decided on the schema itself.
-/
namespace LazyFields
open Text Schema

section Piece
variable {c d : Candidates} {role : LineRole} {nesting : Nesting} {p new : Text}

/-- The marked form of a piece: its parts before the last semicolon with the marker between. -/
def markedForm (p front gap : Text) : Text :=
  front ++ ' ' :: lazyMarker ++ gap ++ ';' :: (divideEnd p).2

/-- A piece is marked for the candidates of its message; they decide whether, but not how. -/
theorem markAt?_eq_some_iff_mem : markAt? c role nesting p = some new ↔
    ∃ m depth front gap field, role = .body 1 ∧ nesting = .inside m depth ∧
      holds lazyMarker p = false ∧ beforeSemicolon? (divideEnd p).1 = some (front, gap) ∧
        (m, field) ∈ c ∧ declaresField field front = true ∧ markedForm p front gap = new := by
  rw [markAt?_eq_some_iff]
  constructor
  · rintro ⟨m, depth, fields, rfl, rfl, hfields, h⟩
    simp only [mark?] at h
    split at h
    · contradiction
    · rename_i unmarked
      split at h
      · contradiction
      · rename_i front gap hbefore
        simp only [Option.ite_none_right_eq_some, Option.some.injEq, List.any_eq_true] at h
        obtain ⟨⟨field, hfield, declared⟩, hnew⟩ := h
        exact ⟨m, depth, front, gap, field, rfl, rfl, by simpa using unmarked, hbefore,
          ⟨fields, hfields, hfield⟩, declared, hnew⟩
  · rintro ⟨m, depth, front, gap, field, rfl, rfl, unmarked, hbefore, ⟨fields, hfields, hfield⟩,
      declared, rfl⟩
    have found : (fields.toList.any fun f => declaresField f front) = true :=
      List.any_eq_true.2 ⟨field, hfield, declared⟩
    refine ⟨m, depth, fields, rfl, rfl, hfields, ?_⟩
    simp [mark?, unmarked, hbefore, found, markedForm]

theorem markAt?_union : markAt? (c.union d) role nesting p =
    (markAt? c role nesting p).or (markAt? d role nesting p) := by
  have either : ∀ new, markAt? (c.union d) role nesting p = some new ↔
      markAt? c role nesting p = some new ∨ markAt? d role nesting p = some new := by
    intro new
    simp only [markAt?_eq_some_iff_mem, Candidates.mem_union, or_and_right, and_or_left, exists_or]
  cases hc : markAt? c role nesting p with
  | some new => exact (either new).2 (.inl hc)
  | none =>
    ext new
    rw [either new, hc, Option.none_or]
    simp

theorem markAt?_eq_none_of_holds (h : holds lazyMarker p = true) :
    markAt? c role nesting p = none := by
  rw [Option.eq_none_iff_forall_ne_some]
  intro new hnew
  obtain ⟨m, depth, front, gap, field, -, -, unmarked, -⟩ := markAt?_eq_some_iff_mem.1 hnew
  rw [h] at unmarked
  contradiction

theorem markAt?_outcome : markAt? d role nesting (outcome (p, markAt? c role nesting p)) =
    if (markAt? c role nesting p).isSome then none else markAt? d role nesting p := by
  cases hc : markAt? c role nesting p with
  | none => rfl
  | some new =>
    obtain ⟨m, depth, fields, -, -, -, hmark⟩ := markAt?_eq_some_iff.1 hc
    exact markAt?_eq_none_of_holds (holds_of_mark? hmark)

/-- Two stages make of a piece what one stage makes of it with the union. -/
theorem outcome_outcome (c d : Candidates) (role : LineRole) (nesting : Nesting) (p : Text) :
    outcome (outcome (p, markAt? c role nesting p),
        markAt? d role nesting (outcome (p, markAt? c role nesting p))) =
      outcome (p, markAt? (c.union d) role nesting p) := by
  rw [markAt?_outcome, markAt?_union]
  cases markAt? c role nesting p with
  | none => rfl
  | some new => rfl

/-- A piece is marked in one of the stages at most, and in one when the union marks it. -/
theorem marked_add_marked (c d : Candidates) (role : LineRole) (nesting : Nesting) (p : Text) :
    (if (markAt? c role nesting p).isSome then 1 else 0) +
        (if (markAt? d role nesting (outcome (p, markAt? c role nesting p))).isSome then 1 else 0) =
      if (markAt? (c.union d) role nesting p).isSome then 1 else 0 := by
  rw [markAt?_outcome, markAt?_union]
  cases markAt? c role nesting p with
  | none => exact Nat.zero_add _
  | some new => rfl

theorem sameShape_outcome (c : Candidates) (role : LineRole) (nesting : Nesting) (p : Text) :
    SameShape (trim p) (trim (outcome (p, markAt? c role nesting p))) := by
  cases hc : markAt? c role nesting p with
  | none => exact .refl _
  | some new =>
    obtain ⟨m, depth, fields, -, -, -, hmark⟩ := markAt?_eq_some_iff.1 hc
    exact sameShape_of_mark? hmark

end Piece

section Walk
variable (c d : Candidates)

theorem markPieces_map_outcome_cons (here : Nesting) (p : Text) (ps : List Text) :
    markPieces d here ((markPieces c here (p :: ps)).map outcome) =
      (outcome (p, markAt? c (here.step (trim p)).1 (here.step (trim p)).2 p),
        markAt? d (here.step (trim p)).1 (here.step (trim p)).2
          (outcome (p, markAt? c (here.step (trim p)).1 (here.step (trim p)).2 p))) ::
      markPieces d (here.step (trim p)).2
        ((markPieces c (here.step (trim p)).2 ps).map outcome) := by
  have same := Nesting.step_congr
    (sameShape_outcome c (here.step (trim p)).1 (here.step (trim p)).2 p) here
  simp only [markPieces, List.map_cons, same]

theorem map_outcome_markPieces (here : Nesting) (ps : List Text) :
    (markPieces d here ((markPieces c here ps).map outcome)).map outcome =
      (markPieces (c.union d) here ps).map outcome := by
  induction ps generalizing here with
  | nil => rfl
  | cons p ps ih =>
    rw [markPieces_map_outcome_cons, List.map_cons, ih, outcome_outcome]
    rfl

theorem countP_markPieces (here : Nesting) (ps : List Text) :
    (markPieces c here ps).countP (·.2.isSome) +
        (markPieces d here ((markPieces c here ps).map outcome)).countP (·.2.isSome) =
      (markPieces (c.union d) here ps).countP (·.2.isSome) := by
  induction ps generalizing here with
  | nil => rfl
  | cons p ps ih =>
    have rest := ih (here.step (trim p)).2
    have first := marked_add_marked c d (here.step (trim p)).1 (here.step (trim p)).2 p
    rw [markPieces_map_outcome_cons]
    simp only [markPieces, List.countP_cons]
    omega

end Walk

section Stages
variable (content : Text) (c d : Candidates)

/-- Two stages are one stage with the union: the same text, and as many marked lines. -/
theorem annotate_union : annotate content (c.union d) =
    ⟨(annotate (annotate content c).text d).text,
      (annotate content c).changes + (annotate (annotate content c).text d).changes⟩ := by
  have texts := map_outcome_markPieces c d .outside (pieces content)
  have counts := countP_markPieces c d .outside (pieces content)
  rw [← pieces_annotate] at texts counts
  have text : (annotate content (c.union d)).text =
      (annotate (annotate content c).text d).text := by
    have whole := congrArg List.flatten texts
    rw [← pieces_annotate, ← pieces_annotate, flatten_pieces, flatten_pieces] at whole
    exact whole.symm
  have changes : (annotate content (c.union d)).changes =
      (annotate content c).changes + (annotate (annotate content c).text d).changes := counts.symm
  rw [← text, ← changes]

/-- Annotation in stages is annotation at once: the last text is that of the union, and the
numbers of marked lines add up to its number.  Hence the order of the stages does not matter, and
candidates that have been through a stage leave nothing to mark. -/
theorem annotate_stages :
    (annotate (annotate content c).text d).text = (annotate content (c.union d)).text ∧
      (annotate content c).changes + (annotate (annotate content c).text d).changes =
        (annotate content (c.union d)).changes ∧
      (annotate (annotate content c).text d).text = (annotate (annotate content d).text c).text ∧
      ∀ e, e ⊆ c.union d → annotate (annotate (annotate content c).text d).text e =
        ⟨(annotate (annotate content c).text d).text, 0⟩ := by
  have once := annotate_union content c d
  have swapped := annotate_union content d c
  rw [Candidates.union_comm] at swapped
  refine ⟨?_, ?_, ?_, ?_⟩
  · rw [once]
  · rw [once]
  · rw [← congrArg Annotation.text once, ← congrArg Annotation.text swapped]
  · intro e applied
    have settled := annotate_annotate_of_subset applied content
    rwa [once] at settled

end Stages
end LazyFields
