import LazyFields.Config.Basic
import LazyFields.Proofs.Annotation.Pass

/-!
# Where reading and marking part

The reader looks at the type of a field and keeps the number of its line.  The annotation is given
pairs of names only.  It marks other declarations of a selected name as well, whatever their types;
and it knows no qualified types, so a field may be selected for ever and never be marked.  For both
it is said here exactly when they happen.
-/
namespace LazyFields
open Text Schema

/-- The line declares a field that cannot be lazy: of a primitive type, of an enum, or repeated. -/
def Eager (enums : NameSet) (line : Text) : Prop :=
  isPrimitive (typeToken line) = true ∨ typeToken line ∈ enums ∨ repeatedKeyword <+: trim line

/-- A selected field, and an eager line elsewhere in a body of its message that declares the name
again, with nothing on the line but the declaration. -/
structure Redeclared (rules : NamingRules) (types accessors : NameSet) (content m : Text)
    (g : Field) (i : Nat) (line : Text) : Prop where
  used : m ∈ types
  noEnum : m ∉ enumNames content
  stored : ∃ fields, (Model.read content rules).fields? m = some fields ∧ g ∈ fields
  unread : accessorName g.name ∉ accessors
  elsewhere : g.line ≠ i + 1
  body : InBody content i m
  atLine : (lines content)[i]? = some line
  plain : Plain line
  named : nameToken line = g.name
  eager : Eager (enumNames content) line

section Mismatch
variable {rules : NamingRules} {types accessors : NameSet} {content m : Text} {g : Field} {i : Nat}
  {line : Text}

theorem Schema.DeclaredIn.not_eager (h : DeclaredIn content rules m g i line) :
    ¬Eager (enumNames content) line := by
  have message := h.messageType
  simp only [isMessageType, Bool.and_eq_true, Bool.not_eq_true', decide_eq_false_iff_not] at message
  obtain ⟨⟨-, composite⟩, noEnum⟩ := message
  rintro (primitive | isEnum | repeated)
  · rw [h.typeToken_eq, composite] at primitive
    contradiction
  · rw [h.typeToken_eq] at isEnum
    exact noEnum isEnum
  · exact h.single repeated

theorem Redeclared.rewritten (h : Redeclared rules types accessors content m g i line) :
    Rewritten content (passCandidates rules types accessors content) i := by
  obtain ⟨fields, hfields, hg⟩ := h.stored
  refine rewritten_pass_iff.2 ⟨m, line, h.body, h.atLine, h.plain, ?_⟩
  rw [h.named]
  exact mem_select_iff.2 ⟨h.used, h.noEnum, ⟨fields, hfields, g, hg, rfl⟩, h.unread⟩

theorem exists_redeclared (hline : (lines content)[i]? = some line)
    (rewritten : Rewritten content (passCandidates rules types accessors content) i)
    (eager : Eager (enumNames content) line) :
    ∃ m g, Redeclared rules types accessors content m g i line := by
  obtain ⟨m, line', hbody, hline', plain, selected⟩ := rewritten_pass_iff.1 rewritten
  obtain rfl := Option.some.inj (hline'.symm.trans hline)
  obtain ⟨used, noEnum, ⟨fields, hfields, g, hg, named⟩, unread⟩ := mem_select_iff.1 selected
  have elsewhere : g.line ≠ i + 1 := by
    intro here
    -- on its own line the reader has seen the type, and found it to be lazyable
    obtain ⟨j, kept, declared⟩ := exists_declaredIn hfields hg
    obtain rfl : j = i := Nat.succ.inj (declared.number.symm.trans here)
    obtain rfl := Option.some.inj (declared.atLine.symm.trans hline)
    exact declared.not_eager eager
  rw [← named] at unread
  exact ⟨m, g, used, noEnum, ⟨fields, hfields, hg⟩, unread, elsewhere, hbody, hline, plain,
    named.symm, eager⟩

/-- A pass marks no eager line exactly when no eager line declares the name of a selected field of
its message again. -/
theorem no_eager_rewritten_iff (content : Text) (rules : NamingRules) (types accessors : NameSet) :
    (∀ i line, (lines content)[i]? = some line →
      Rewritten content (passCandidates rules types accessors content) i →
        ¬Eager (enumNames content) line) ↔
      ∀ m g i line, ¬Redeclared rules types accessors content m g i line := by
  constructor
  · intro spared m g i line again
    exact spared i line again.atLine again.rewritten again.eager
  · intro once i line hline rewritten eager
    obtain ⟨m, g, again⟩ := exists_redeclared hline rewritten eager
    exact once m g i line again

end Mismatch

/-- A message with a scalar field, and a later one of its name whose field takes the place. -/
def shadowed : Text :=
  "message AProto \x7b\n  int32 b = 1;\n\x7d\nmessage AProto \x7b\n  BProto b = 1;\n\x7d\n".toList

/-- The scalar field of the shadowed message is marked. -/
theorem eager_rewritten_of_shadowed :
    ¬∀ i line, (lines shadowed)[i]? = some line →
      Rewritten shadowed (passCandidates ({} : NamingConfig).rules (.ofList ["AProto".toList])
        ∅ shadowed) i → ¬Eager (enumNames shadowed) line := by
  intro spared
  apply spared 1 "  int32 b = 1;".toList
  · decide +kernel
  · decide +kernel
  · exact .inl (by decide +kernel)

section Kept
variable {rules : NamingRules} {types accessors : NameSet} {content m : Text} {g : Field} {i : Nat}
  {line : Text}

theorem Schema.DeclaredIn.plain_iff (h : DeclaredIn content rules m g i line) :
    Plain line ↔ '.' ∉ g.type ∧ Blank (afterSemicolon line) := by
  constructor
  · intro plain
    have word := plain.type
    rw [h.typeToken_eq, row_isWord_iff h.typeName] at word
    exact ⟨word, plain.rest⟩
  · rintro ⟨undotted, rest⟩
    refine ⟨h.unmarked, ?_, ?_, rest⟩
    · rwa [h.typeToken_eq, row_isWord_iff h.typeName]
    · rw [h.typeToken_eq, h.nameToken_eq]
      exact h.declares

theorem Schema.DeclaredIn.rewritten_iff (h : DeclaredIn content rules m g i line)
    (selected : (m, g.name) ∈ passCandidates rules types accessors content) :
    Rewritten content (passCandidates rules types accessors content) i ↔ Plain line := by
  rw [rewritten_pass_iff]
  constructor
  · rintro ⟨m', line', -, hline', plain, -⟩
    obtain rfl := Option.some.inj (hline'.symm.trans h.atLine)
    exact plain
  · intro plain
    refine ⟨m, line, h.body, h.atLine, plain, ?_⟩
    rwa [h.nameToken_eq]

/-- The line of a selected field is marked exactly when the type is not qualified and nothing but
blanks stands behind the semicolon of the declaration. -/
theorem marked_iff_of_selected {fields : List Field}
    (hfields : (Model.read content rules).fields? m = some fields) (hg : g ∈ fields)
    (selected : (m, g.name) ∈ passCandidates rules types accessors content) :
    ∃ i line out, DeclaredIn content rules m g i line ∧
      (lines (pass rules types accessors content).text)[i]? = some out ∧
        (holds lazyMarker out = true ↔ '.' ∉ g.type ∧ Blank (afterSemicolon line)) := by
  obtain ⟨i, line, declared⟩ := exists_declaredIn hfields hg
  have when := (declared.rewritten_iff selected).trans declared.plain_iff
  by_cases rewritten : Rewritten content (passCandidates rules types accessors content) i
  · obtain ⟨out, hout, marked⟩ := marked_of_rewritten rewritten
    exact ⟨i, line, out, declared, hout, iff_of_true marked (when.1 rewritten)⟩
  · have kept := (lines_of_not_rewritten rewritten).trans declared.atLine
    refine ⟨i, line, line, declared, kept, iff_of_false ?_ (mt when.2 rewritten)⟩
    simp [declared.unmarked]

end Kept

/-- A message with a field of a qualified type and one of a simple type. -/
def partlyQualified : Text :=
  "message AProto \x7b\n  pkg.BProto b = 1;\n  CProto c = 2;\n\x7d\n".toList

theorem fields?_partlyQualified :
    (Model.read partlyQualified ({} : NamingConfig).rules).fields? "AProto".toList =
      some [⟨"b".toList, "pkg.BProto".toList, 1, 2⟩, ⟨"c".toList, "CProto".toList, 2, 3⟩] := by
  decide +kernel

theorem mem_passCandidates_partlyQualified {f : Text} (h : f = "b".toList ∨ f = "c".toList) :
    ("AProto".toList, f) ∈ passCandidates ({} : NamingConfig).rules (.ofList ["AProto".toList]) ∅
      partlyQualified := by
  refine mem_select_iff.2 ⟨by decide, by decide +kernel, ⟨_, fields?_partlyQualified, ?_⟩, ?_⟩
  · rcases h with rfl | rfl
    · exact ⟨_, List.mem_cons_self, rfl⟩
    · exact ⟨_, List.mem_cons_of_mem _ List.mem_cons_self, rfl⟩
  · exact NameSet.mem_empty

/-- The field of the simple type is marked. -/
theorem marked_of_partlyQualified :
    ∃ i line out, DeclaredIn partlyQualified ({} : NamingConfig).rules "AProto".toList
        ⟨"c".toList, "CProto".toList, 2, 3⟩ i line ∧
      (lines (pass ({} : NamingConfig).rules (.ofList ["AProto".toList]) ∅
        partlyQualified).text)[i]? = some out ∧ holds lazyMarker out = true := by
  obtain ⟨i, line, out, declared, hout, marked⟩ := marked_iff_of_selected fields?_partlyQualified
    (List.mem_cons_of_mem _ List.mem_cons_self) (mem_passCandidates_partlyQualified (.inr rfl))
  refine ⟨i, line, out, declared, hout, marked.2 ⟨by decide, ?_⟩⟩
  obtain rfl : i = 2 := (Nat.succ.inj declared.number).symm
  have atLine : (lines partlyQualified)[2]? = some "  CProto c = 2;".toList := by decide +kernel
  obtain rfl := Option.some.inj (declared.atLine.symm.trans atLine)
  decide

/-- The field of the qualified type is selected, and its line is not marked. -/
theorem unmarked_of_partlyQualified :
    ¬∀ m fields g line, (Model.read partlyQualified ({} : NamingConfig).rules).fields? m =
        some fields → g ∈ fields →
      (m, g.name) ∈ passCandidates ({} : NamingConfig).rules (.ofList ["AProto".toList]) ∅
        partlyQualified →
      (lines partlyQualified)[g.line - 1]? = some line → Blank (afterSemicolon line) →
      ∃ out, (lines (pass ({} : NamingConfig).rules (.ofList ["AProto".toList]) ∅
        partlyQualified).text)[g.line - 1]? = some out ∧ holds lazyMarker out = true := by
  intro all
  obtain ⟨out, hout, marked⟩ := all "AProto".toList _ ⟨"b".toList, "pkg.BProto".toList, 1, 2⟩
    "  pkg.BProto b = 1;".toList fields?_partlyQualified List.mem_cons_self
    (mem_passCandidates_partlyQualified (.inl rfl)) (by decide +kernel) (by decide)
  have kept : (lines (pass ({} : NamingConfig).rules (.ofList ["AProto".toList]) ∅
      partlyQualified).text)[1]? = some "  pkg.BProto b = 1;".toList := by decide +kernel
  obtain rfl := Option.some.inj (hout.symm.trans kept)
  exact absurd marked (by decide)

end LazyFields
