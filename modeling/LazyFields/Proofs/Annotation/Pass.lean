import LazyFields.Proofs.Annotation.Rereading

/-!
# Passes

A pass reads a schema, selects candidates, and marks their lines.  It rewrites the plain
declarations of names that it has selected, wherever in a body of the message they stand.  A second
pass over its result has nothing left to do.
-/
namespace LazyFields
open Text Schema

section Passes
variable (rules : NamingRules) (types accessors : NameSet)

def passCandidates (content : Text) : Candidates :=
  select types (Model.read content rules) accessors

/-- A pass over a schema: it is read, candidates are selected, and their lines are marked. -/
def pass (content : Text) : Annotation :=
  annotate content (passCandidates rules types accessors content)

/-- A second pass changes nothing, and it selects no pair that the first pass did not select. -/
theorem pass_pass (content : Text) :
    (pass rules types accessors (pass rules types accessors content).text).changes = 0 ∧
      (pass rules types accessors (pass rules types accessors content).text).text =
        (pass rules types accessors content).text ∧
      passCandidates rules types accessors (pass rules types accessors content).text ⊆
        passCandidates rules types accessors content := by
  have found : passCandidates rules types accessors (pass rules types accessors content).text ⊆
      passCandidates rules types accessors content :=
    select_annotate_subset content _ rules types accessors
  have settled : pass rules types accessors (pass rules types accessors content).text =
      ⟨(pass rules types accessors content).text, 0⟩ := annotate_annotate_of_subset found content
  rw [settled]
  exact ⟨rfl, rfl, found⟩

end Passes

/-- An unmarked line that is a declaration and nothing else: a type of one word, a name, an
ordinal and a semicolon, with blanks between and around them. -/
structure Plain (line : Text) : Prop where
  unmarked : holds lazyMarker line = false
  type : Row isWord (typeToken line)
  declares : Declares (typeToken line) (nameToken line) (afterSemicolon line) line
  rest : Blank (afterSemicolon line)

section Selected
variable {rules : NamingRules} {types accessors : NameSet} {content : Text}

theorem fieldName_of_mem {m f : Text} (h : (m, f) ∈ passCandidates rules types accessors content) :
    FieldName f := by
  obtain ⟨-, -, ⟨fields, hfields, g, hg, rfl⟩, -⟩ := mem_select_iff.1 h
  obtain ⟨i, line, declared⟩ := exists_declaredIn hfields hg
  exact declared.fieldName

theorem rewritten_pass_iff {i : Nat} :
    Rewritten content (passCandidates rules types accessors content) i ↔ ∃ m line,
      InBody content i m ∧ (lines content)[i]? = some line ∧ Plain line ∧
        (m, nameToken line) ∈ passCandidates rules types accessors content := by
  rw [rewritten_iff]
  constructor
  · rintro ⟨m, line, hbody, hline, unmarked, type, field, tail, hfield, htype, htail, declares⟩
    have hname := fieldName_of_mem hfield
    obtain rfl := typeToken_eq declares htype.typeName
    obtain rfl := nameToken_eq declares htype.typeName hname
    obtain rfl := afterSemicolon_eq declares htype.typeName hname
    exact ⟨m, line, hbody, hline, ⟨unmarked, htype, declares, htail⟩, hfield⟩
  · rintro ⟨m, line, hbody, hline, plain, hfield⟩
    exact ⟨m, line, hbody, hline, plain.unmarked, _, _, _, hfield, plain.type, plain.rest,
      plain.declares⟩

end Selected
end LazyFields
