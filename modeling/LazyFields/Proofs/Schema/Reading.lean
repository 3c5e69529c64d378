import LazyFields.Proofs.Schema.Nesting
import LazyFields.Proofs.Schema.Tokens
import LazyFields.Schema.Model

/-!
# What the reader keeps

Each field that is kept for a message was declared on its line, directly in a body of the message.
The reader is followed line by line: a step keeps the invariant if the line it reads does, and a
run keeps it if all its lines do.
-/
namespace LazyFields.Schema
open Text

theorem lazyable?_eq_some_iff {isMessage : Text → Bool} {n : Nat} {line : Text} {g : Field} :
    lazyable? isMessage n line = some g ↔ lazyMarker.holds line = false ∧
      ¬repeatedKeyword <+: line ∧ ∃ d, fieldDeclaration? line = some d ∧ isMessage d.type = true ∧
        ⟨d.name, d.type, d.ordinal, n⟩ = g := by
  unfold lazyable?
  split
  · rename_i h
    simp only [Bool.or_eq_true, List.isPrefixOf_iff_prefix] at h
    simp only [reduceCtorEq, false_iff]
    rintro ⟨unmarked, single, -⟩
    rcases h with h | h
    · simp [h] at unmarked
    · exact single h
  · rename_i h
    simp only [Bool.or_eq_true, List.isPrefixOf_iff_prefix, not_or, Bool.not_eq_true] at h
    cases hd : fieldDeclaration? line with
    | none => simp
    | some d =>
      by_cases hm : isMessage d.type
      · simp [h.1, h.2, hm]
      · simp [hm]

namespace Reading
variable {isMessage : Text → Bool}

/-- The fields that a trimmed line with a number adds to the open message, at the depth after it. -/
def added (isMessage : Text → Bool) (n : Nat) (line : Text) (depth : Int) : List Field :=
  if depth = 1 then (lazyable? isMessage n line).toList else []

theorem push_eq (r : Reading) (line : Text) (n : Nat) :
    r.push isMessage (line, n) = match r.nesting.step (trim line) with
      | (.outside, next) => ⟨next, r.fields, r.messages⟩
      | (.opened _, next) => ⟨next, [], r.messages⟩
      | (.closed m, next) => ⟨next, [], r.messages.insert m r.fields.reverse⟩
      | (.body depth, next) =>
        ⟨next, added isMessage n (trim line) depth ++ r.fields, r.messages⟩ := by
  simp only [push]
  cases r.nesting.step (trim line) with
  | mk role next =>
    cases role with
    | outside => rfl
    | opened m => rfl
    | closed m => rfl
    | body depth =>
      simp only [added]
      split
      · cases lazyable? isMessage n (trim line) <;> rfl
      · rfl

theorem nesting_push (r : Reading) (line : Text) (n : Nat) :
    (r.push isMessage (line, n)).nesting = (r.nesting.step (trim line)).2 := by
  rw [push_eq]
  split <;> simp_all

structure Keeps (P : Text → Field → Prop) (r : Reading) : Prop where
  current : ∀ m d, r.nesting = .inside m d → ∀ g ∈ r.fields, P m g
  closed : ∀ m fields, r.messages.find? m = some fields → ∀ g ∈ fields, P m g

theorem mem_added {n : Nat} {line : Text} {depth : Int} {g : Field}
    (h : g ∈ added isMessage n line depth) : depth = 1 ∧ lazyable? isMessage n line = some g := by
  unfold added at h
  split at h
  · rename_i hdepth
    exact ⟨hdepth, Option.mem_toList.1 h⟩
  · simp at h

theorem keeps_push {P : Text → Field → Prop} {r : Reading} (h : r.Keeps P) {line : Text} {n : Nat}
    (declared : ∀ m g, r.nesting.step (trim line) = (.body 1, .inside m 1) →
      lazyable? isMessage n (trim line) = some g → P m g) :
    (r.push isMessage (line, n)).Keeps P := by
  rw [push_eq]
  obtain ⟨-, -, hs⟩ | ⟨m, -, -, hs⟩ | ⟨m, d, hr, -, hs⟩ | ⟨m, d, depth, hr, -, -, hs⟩ :=
    r.nesting.step_cases (trim line)
  all_goals rw [hs]
  · exact ⟨fun m d hn => (nomatch hn), h.closed⟩
  · exact ⟨fun m d _ g hg => (nomatch hg), h.closed⟩
  · refine ⟨fun m d hn => (nomatch hn), fun m' fields hfields g hg => ?_⟩
    rw [NameMap.find?_insert] at hfields
    split at hfields
    · rename_i hm
      obtain rfl := Option.some.inj hfields
      rw [hm]
      exact h.current m d hr g (List.mem_reverse.1 hg)
    · exact h.closed m' fields hfields g hg
  · refine ⟨fun m' d' hn g hg => ?_, h.closed⟩
    obtain ⟨rfl, rfl⟩ := Nesting.inside.inj hn
    rcases List.mem_append.1 hg with hg | hg
    · obtain ⟨rfl, hfield⟩ := mem_added hg
      exact declared m g hs hfield
    · exact h.current m d hr g hg

theorem keeps_foldl {P : Text → Field → Prop} {ls : List Text} {r : Reading} (h : r.Keeps P)
    {n : Nat} (declared : ∀ i line m g, ls[i]? = some line →
      (r.nesting.trace (ls.map trim))[i]? = some (.body 1, .inside m 1) →
      lazyable? isMessage (n + i) (trim line) = some g → P m g) :
    ((ls.zipIdx n).foldl (push isMessage) r).Keeps P := by
  induction ls generalizing r n with
  | nil => exact h
  | cons line ls ih =>
    rw [List.zipIdx_cons, List.foldl_cons]
    apply ih
    · exact keeps_push h fun m g hs hg => declared 0 line m g rfl (by simp [Nesting.trace, hs]) hg
    · intro i line' m g hline' htrace hg
      rw [nesting_push] at htrace
      refine declared (i + 1) line' m g (by simpa using hline') ?_ ?_
      · simpa [Nesting.trace] using htrace
      · rwa [show n + (i + 1) = n + 1 + i by omega]

end Reading

/-- A line of a body that declares a field which may be marked: at depth 1, without a marker, not
repeated, and with a message type. -/
structure DeclaredIn (content : Text) (rules : NamingRules) (m : Text) (g : Field) (i : Nat)
    (line : Text) : Prop where
  number : g.line = i + 1
  atLine : (lines content)[i]? = some line
  body : InBody content i m
  unmarked : lazyMarker.holds line = false
  single : ¬repeatedKeyword <+: trim line
  messageType :
    isMessageType (messageNames content) (enumNames content) rules g.type = true
  typeName : Row isTypeName g.type
  fieldName : FieldName g.name
  declares : Declares g.type g.name (afterSemicolon line) line

section Tokens
variable {content : Text} {rules : NamingRules} {m : Text} {g : Field} {i : Nat} {line : Text}

theorem DeclaredIn.typeToken_eq (h : DeclaredIn content rules m g i line) :
    typeToken line = g.type :=
  Schema.typeToken_eq h.declares h.typeName

theorem DeclaredIn.nameToken_eq (h : DeclaredIn content rules m g i line) :
    nameToken line = g.name :=
  Schema.nameToken_eq h.declares h.typeName h.fieldName

end Tokens

theorem declares_of_fieldDeclaration? {line : Text} {d : FieldDeclaration}
    (h : fieldDeclaration? (trim line) = some d) : Row isTypeName d.type ∧ FieldName d.name ∧
      Declares d.type d.name (afterSemicolon line) line := by
  obtain ⟨front, gap, rest, hline, hfront, hgap, htype, hname⟩ := exists_of_fieldDeclaration? h
  obtain ⟨lead, tail, hlead, -, ht⟩ := exists_trim line
  have declares : Declares d.type d.name (rest ++ tail) line := by
    have parts : Declares d.type d.name (rest ++ tail) _ := .intro hlead hfront hgap
    rw [ht, hline]
    simpa using parts
  refine ⟨htype, hname, ?_⟩
  rwa [afterSemicolon_eq declares htype hname]

/-- Each field that is kept for a message was found on a line of its body. -/
theorem exists_line_of_mem {content : Text} {enums : NameSet} {rules : NamingRules} {m : Text}
    {fields : List Field} (h : (readMessages content enums rules).find? m = some fields) {g : Field}
    (hg : g ∈ fields) :
    ∃ i line, (lines content)[i]? = some line ∧ InBody content i m ∧
      lazyable? (isMessageType (messageNames content) enums rules) (1 + i) (trim line) =
        some g := by
  let P (m : Text) (g : Field) : Prop := ∃ i line, (lines content)[i]? = some line ∧
    InBody content i m ∧
      lazyable? (isMessageType (messageNames content) enums rules) (1 + i) (trim line) = some g
  have start : Reading.Keeps P {} := by
    refine ⟨fun m d hn => (nomatch hn), fun m fields hf => ?_⟩
    cases hf
  exact (Reading.keeps_foldl start fun i line m g hline hbody hlazy =>
    ⟨i, line, hline, hbody, hlazy⟩).closed m fields h g hg

/-- Each field that is kept for a message was declared on a line of its body. -/
theorem exists_declaredIn {content : Text} {rules : NamingRules} {m : Text} {fields : List Field}
    (h : (Model.read content rules).fields? m = some fields) {g : Field} (hg : g ∈ fields) :
    ∃ i line, DeclaredIn content rules m g i line := by
  obtain ⟨i, line, hline, hbody, hlazy⟩ := exists_line_of_mem h hg
  obtain ⟨unmarked, single, d, hd, hm, rfl⟩ := lazyable?_eq_some_iff.1 hlazy
  obtain ⟨htype, hname, declares⟩ := declares_of_fieldDeclaration? hd
  rw [holds_lazyMarker_trim] at unmarked
  exact ⟨i, line, Nat.add_comm 1 i, hline, hbody, unmarked, single, hm, htype, hname, declares⟩

end LazyFields.Schema
