import LazyFields.Proofs.Annotation.Joined

/-!
# Reading and annotating in step

The reader goes through the lines of a schema, which have lost their line ends, and the annotation
through its pieces, which keep them.  A line end is blank and both trim what they look at.  Before
each line the two therefore stand at the same place, and there they see the same.
-/
namespace LazyFields
open Text Schema

def Schema.Reading.before (isMessage : Text → Bool) (content : Text) (i : Nat) : Reading :=
  (((lines content).take i).zipIdx 1).foldl (Reading.push isMessage) {}

namespace Schema.Reading
variable {isMessage : Text → Bool} {content line : Text} {i : Nat}

theorem before_succ (h : (lines content)[i]? = some line) :
    before isMessage content (i + 1) =
      (before isMessage content i).push isMessage (line, i + 1) := by
  have short : ((lines content).take i).length = i :=
    List.length_take_of_le (List.getElem?_eq_some_iff.1 h).1.le
  rw [before, List.take_add_one, h, Option.toList_some, List.zipIdx_append, List.foldl_append,
    short, Nat.add_comm 1 i]
  rfl

theorem messages_before_length (content : Text) (enums : NameSet) (rules : NamingRules) :
    (before (isMessageType (messageNames content) enums rules) content
      (lines content).length).messages = readMessages content enums rules := by
  rw [before, List.take_length, readMessages]

theorem nesting_before (isMessage : Text → Bool) (content : Text) (i : Nat) :
    (before isMessage content i).nesting =
      Nesting.after .outside (((pieces content).take i).map trim) := by
  rw [before, nesting_foldl, List.map_take, List.map_take, map_trim_pieces]

end Schema.Reading

open Schema.Reading

/-- The lines that are read and the pieces that are annotated go side by side: there are as many of
them, equal but for blanks; the annotation comes to each piece where the reader comes to its line,
and each of them makes the same step there; and the pieces, whole or divided, make up the schema. -/
structure Lockstep (content : Text) : Prop where
  length : (pieces content).length = (lines content).length
  trimmed : ∀ (i : Nat) line piece, (lines content)[i]? = some line →
    (pieces content)[i]? = some piece → trim piece = trim line
  readWhole : ∀ enums rules, readMessages content enums rules =
    (before (isMessageType (messageNames content) enums rules) content
      (lines content).length).messages
  readStep : ∀ isMessage (i : Nat) line, (lines content)[i]? = some line →
    before isMessage content (i + 1) = (before isMessage content i).push isMessage (line, i + 1)
  sameStep : ∀ isMessage c (i : Nat) line piece role next, (lines content)[i]? = some line →
    (pieces content)[i]? = some piece →
    (before isMessage content i).nesting.step (trim line) = (role, next) →
      (before isMessage content (i + 1)).nesting = next ∧
      markPieces c .outside (pieces content) =
        markPieces c .outside ((pieces content).take i) ++
          (piece, markAt? c role next piece) :: markPieces c next ((pieces content).drop (i + 1))
  whole : (pieces content).flatten = content
  divided : ((pieces content).flatMap fun p => (divideEnd p).1 ++ (divideEnd p).2) = content

/-- Every schema is read and annotated in step. -/
theorem lockstep (content : Text) : Lockstep content := by
  have trimmed : ∀ (i : Nat) line piece, (lines content)[i]? = some line →
      (pieces content)[i]? = some piece → trim piece = trim line := by
    intro i line piece hline hpiece
    have same := congrArg (·[i]?) (map_trim_pieces content)
    simpa [hline, hpiece] using same
  refine ⟨?_, trimmed, fun enums rules => (messages_before_length content enums rules).symm,
    fun isMessage i line => before_succ, ?_, flatten_pieces content, ?_⟩
  · simpa using congrArg List.length (map_trim_pieces content)
  · intro isMessage c i line piece role next hline hpiece step
    obtain ⟨within, here⟩ := List.getElem?_eq_some_iff.1 hpiece
    have rest : (pieces content).drop i = piece :: (pieces content).drop (i + 1) := by
      rw [List.drop_eq_getElem_cons within, here]
    constructor
    · rw [before_succ hline, nesting_push, step]
    · conv_lhs => rw [← List.take_append_drop i (pieces content)]
      rw [markPieces_append, ← nesting_before isMessage, rest, markPieces,
        trimmed i line piece hline hpiece, step]
  · simp only [divideEnd_append, List.flatMap_id', flatten_pieces]

end LazyFields
