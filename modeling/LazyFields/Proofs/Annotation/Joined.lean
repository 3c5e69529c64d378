import LazyFields.Config.Basic
import LazyFields.Proofs.Annotation.Rewriting
import LazyFields.Proofs.Schema.Joined

/-!
# Annotating schemas that are put together

A schema that is closed and another one behind it are annotated each by itself: the walk over the
second one begins as if nothing stood before it.
-/
namespace LazyFields
open Text Schema

section Annotated
variable {c : Candidates}

theorem markPieces_append (here : Nesting) (ps qs : List Text) :
    markPieces c here (ps ++ qs) =
      markPieces c here ps ++ markPieces c (here.after (ps.map trim)) qs := by
  induction ps generalizing here with
  | nil => rfl
  | cons p ps ih =>
    simp only [List.cons_append, markPieces, ih]
    rfl

theorem markPieces_pieces_append {a : Text} (h : Closed a) (b : Text) :
    markPieces c .outside (pieces (a ++ b)) =
      markPieces c .outside (pieces a) ++ markPieces c .outside (pieces b) := by
  rw [pieces_append h.ended, markPieces_append, map_trim_pieces, h.outside]

end Annotated

/-- A closed schema and another one behind it are annotated each by itself, and have the enums and
the messages of both.  The second one keeps the fields of its messages, further down, and the first
one those of the messages that the second one has not; a name declared in one of them can let the
reader keep further fields of the other one. -/
theorem annotate_append {a : Text} (h : Closed a) (b : Text) :
    (∀ c, (annotate (a ++ b) c).text = (annotate a c).text ++ (annotate b c).text ∧
      (annotate (a ++ b) c).changes = (annotate a c).changes + (annotate b c).changes) ∧
    enumNames (a ++ b) = (enumNames a).union (enumNames b) ∧
    messageNames (a ++ b) = (messageNames a).union (messageNames b) ∧
    ∀ enums rules, (readMessages (a ++ b) enums rules).keys =
        (readMessages a enums rules).keys.union (readMessages b enums rules).keys ∧
      (∀ m fields, (readMessages b enums rules).find? m = some fields →
        ∃ fields', (readMessages (a ++ b) enums rules).find? m = some fields' ∧
          (fields.map (Schema.Field.shift (lines a).length)).Sublist fields') ∧
      ∀ m fields, (readMessages a enums rules).find? m = some fields →
        (readMessages b enums rules).find? m = none →
        ∃ fields', (readMessages (a ++ b) enums rules).find? m = some fields' ∧
          fields.Sublist fields' := by
  refine ⟨fun c => ⟨?_, ?_⟩, enumNames_append h.ended b, messageNames_append h.ended b,
    fun enums rules => ⟨keys_readMessages_append h b, fun _ _ => exists_sublist_append_right h b,
      fun _ _ => exists_sublist_append_left h b⟩⟩
  · simp only [annotate, markPieces_pieces_append h, List.flatMap_append]
  · simp only [annotate, markPieces_pieces_append h, List.countP_append]

/-- A schema that declares a message whose name does not show that it is one. -/
def innerDeclared : Text := "message Inner \x7b\n\x7d\n".toList

def innerUsed : Text := "message AProto \x7b\n  Inner i = 1;\n  BProto b = 2;\n\x7d\n".toList

/-- The second schema by itself has one field.  Behind the first one it is marked as by itself, and
the field stands two lines further down, behind one that only the first one lets be read. -/
theorem joined_of_innerDeclared :
    Closed innerDeclared ∧
    (readMessages innerUsed ∅ ({} : NamingConfig).rules).find? "AProto".toList =
      some [⟨"b".toList, "BProto".toList, 2, 3⟩] ∧
    (annotate (innerDeclared ++ innerUsed) (.ofList [("AProto".toList, "b".toList)])).text =
      innerDeclared ++
        "message AProto \x7b\n  Inner i = 1;\n  BProto b = 2 [lazy = true];\n\x7d\n".toList ∧
    ∃ fields', (readMessages (innerDeclared ++ innerUsed) ∅ ({} : NamingConfig).rules).find?
        "AProto".toList = some fields' ∧ fields'.length = 2 ∧
      [⟨"b".toList, "BProto".toList, 2, 5⟩].Sublist fields' := by
  have closed : Closed innerDeclared := ⟨by decide +kernel, by decide +kernel⟩
  have alone : (readMessages innerUsed ∅ ({} : NamingConfig).rules).find? "AProto".toList =
      some [⟨"b".toList, "BProto".toList, 2, 3⟩] := by decide +kernel
  have length : ((readMessages (innerDeclared ++ innerUsed) ∅ ({} : NamingConfig).rules).find?
      "AProto".toList).map List.length = some 2 := by decide +kernel
  obtain ⟨annotated, -, -, read⟩ := annotate_append closed innerUsed
  obtain ⟨fields', hfields', sub⟩ := (read ∅ ({} : NamingConfig).rules).2.1 _ _ alone
  have further : [Schema.Field.mk "b".toList "BProto".toList 2 3].map
      (Schema.Field.shift (lines innerDeclared).length) =
        [⟨"b".toList, "BProto".toList, 2, 5⟩] := by decide +kernel
  rw [hfields', Option.map_some, Option.some.injEq] at length
  rw [further] at sub
  refine ⟨closed, alone, ?_, fields', hfields', length, sub⟩
  rw [(annotated _).1]
  decide +kernel

end LazyFields
