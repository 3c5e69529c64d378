import LazyFields.Proofs.Annotation.Rewriting
import LazyFields.Proofs.NameMap
import LazyFields.Proofs.Schema.Reading

/-!
# Reading an annotated schema

An annotated schema reads as the schema without the fields on the rewritten lines, and as nothing
else: a marked line keeps its shape and declares no field.  It therefore offers no candidate that
the schema does not offer.
-/
namespace LazyFields
open Text

namespace Schema

namespace Reading
variable {isMessage : Text → Bool} {gone : Nat → Bool}

def without (gone : Nat → Bool) (r : Reading) : Reading where
  nesting := r.nesting
  fields := r.fields.filter fun g => !gone g.line
  messages := r.messages.mapValues (List.filter fun g => !gone g.line)

/-- A numbered line stands for another one: both have the same shape, and it declares the same
field, or none if the line is gone. -/
structure StandsFor (isMessage : Text → Bool) (gone : Nat → Bool) (line line' : Text × Nat) :
    Prop where
  number : line'.2 = line.2
  shape : SameShape (trim line.1) (trim line'.1)
  field : lazyable? isMessage line'.2 (trim line'.1) =
    if gone line.2 then none else lazyable? isMessage line.2 (trim line.1)

theorem filter_added (n : Nat) (line : Text) (depth : Int) :
    (added isMessage n line depth).filter (fun g => !gone g.line) =
      if gone n then [] else added isMessage n line depth := by
  unfold added
  split
  · cases hg : lazyable? isMessage n line with
    | none => simp
    | some g =>
      obtain ⟨-, -, d, -, -, rfl⟩ := lazyable?_eq_some_iff.1 hg
      cases hn : gone n <;> simp [hn]
  · simp

theorem added_eq_filter {n : Nat} {line line' : Text} (field : lazyable? isMessage n line' =
    if gone n then none else lazyable? isMessage n line) (depth : Int) :
    added isMessage n line' depth =
      (added isMessage n line depth).filter fun g => !gone g.line := by
  rw [filter_added]
  unfold added
  rw [field]
  by_cases h : gone n
  · simp [h]
  · simp [h]

theorem push_without {line line' : Text × Nat} (h : StandsFor isMessage gone line line')
    (r : Reading) :
    (r.without gone).push isMessage line' = (r.push isMessage line).without gone := by
  obtain ⟨line, n⟩ := line
  obtain ⟨line', n'⟩ := line'
  obtain ⟨rfl, shape, field⟩ := h
  have step : (r.without gone).nesting.step (trim line') = r.nesting.step (trim line) :=
    Nesting.step_congr shape r.nesting
  rw [push_eq, push_eq, step]
  obtain ⟨-, -, hs⟩ | ⟨m, -, -, hs⟩ | ⟨m, d, -, -, hs⟩ | ⟨m, d, depth, -, -, -, hs⟩ :=
    r.nesting.step_cases (trim line)
  all_goals rw [hs]
  · rfl
  · rfl
  · simp only [without, NameMap.mapValues_insert, List.filter_reverse, List.filter_nil]
  · simp only [without, List.filter_append, added_eq_filter field]

theorem foldl_without {ls ls' : List (Text × Nat)}
    (h : List.Forall₂ (StandsFor isMessage gone) ls ls') (r : Reading) :
    ls'.foldl (push isMessage) (r.without gone) = (ls.foldl (push isMessage) r).without gone := by
  induction h generalizing r with
  | nil => rfl
  | cons hline _ ih => rw [List.foldl_cons, List.foldl_cons, push_without hline, ih]

end Reading

def Model.without (gone : Nat → Bool) (model : Model) : Model where
  enums := model.enums
  messages := model.messages.mapValues (List.filter fun g => !gone g.line)

theorem Model.fields?_without (gone : Nat → Bool) (model : Model) (m : Text) :
    (model.without gone).fields? m =
      (model.fields? m).map (List.filter fun g => !gone g.line) :=
  NameMap.find?_mapValues ..

end Schema

open Schema

section Reread
variable {content : Text} {c : Candidates}

def rewrittenLine (content : Text) (c : Candidates) (number : Nat) : Bool :=
  decide (Rewritten content c (number - 1))

theorem enumNames_annotate (content : Text) (c : Candidates) :
    enumNames (annotate content c).text = enumNames content := by
  have same := filterMap_of_sameShape (fun _ _ h => h.enum) (sameShape_annotate content c)
  rw [List.filterMap_map, List.filterMap_map] at same
  exact congrArg NameSet.ofList same

theorem messageNames_annotate (content : Text) (c : Candidates) :
    messageNames (annotate content c).text = messageNames content := by
  have same := filterMap_of_sameShape (fun _ _ h => h.message) (sameShape_annotate content c)
  rw [List.filterMap_map, List.filterMap_map] at same
  exact congrArg NameSet.ofList same

theorem lazyable?_of_marked {isMessage : Text → Bool} {n : Nat} {line : Text}
    (h : holds lazyMarker line = true) : lazyable? isMessage n (trim line) = none := by
  rw [← holds_lazyMarker_trim] at h
  simp [lazyable?, h]

/-- Each line of an annotated schema stands for that of the schema, without its field if it was
rewritten. -/
theorem standsFor_annotate (isMessage : Text → Bool) (content : Text) (c : Candidates) :
    List.Forall₂ (Reading.StandsFor isMessage (rewrittenLine content c))
      ((lines content).zipIdx 1) ((lines (annotate content c).text).zipIdx 1) := by
  obtain ⟨hlength, shapes⟩ := List.forall₂_iff_get.1 (sameShape_annotate content c)
  rw [List.length_map, List.length_map] at hlength
  refine List.forall₂_iff_get.2 ⟨by simp [hlength], fun i h₁ h₂ => ?_⟩
  rw [List.length_zipIdx] at h₁ h₂
  have hline := List.getElem?_eq_getElem h₁
  have hline' := List.getElem?_eq_getElem h₂
  simp only [List.get_eq_getElem, List.getElem_zipIdx]
  refine ⟨rfl, by simpa using shapes i (by simpa using h₁) (by simpa using h₂), ?_⟩
  by_cases h : Rewritten content c i
  · obtain ⟨line, hmarked, marked⟩ := marked_of_rewritten h
    obtain rfl : _ = line := Option.some.inj (hline'.symm.trans hmarked)
    simp [rewrittenLine, h, lazyable?_of_marked marked]
  · have kept := lines_of_not_rewritten h
    rw [hline, hline'] at kept
    simp [rewrittenLine, h, Option.some.inj kept]

theorem read_annotate (content : Text) (c : Candidates) (rules : NamingRules) :
    Model.read (annotate content c).text rules =
      (Model.read content rules).without (rewrittenLine content c) := by
  have run := fun isMessage => Reading.foldl_without (standsFor_annotate isMessage content c) {}
  have start : Reading.without (rewrittenLine content c) {} = {} := rfl
  rw [start] at run
  simp only [Model.read, Model.without, readMessages, enumNames_annotate, messageNames_annotate,
    run]
  rfl

/-- Reading an annotated schema loses exactly the fields on the rewritten lines: the enums and the
messages are the same, and each message keeps its other fields, in their order and unchanged. -/
theorem reading_annotate (content : Text) (c : Candidates) (rules : NamingRules) :
    (Model.read (annotate content c).text rules).enums = (Model.read content rules).enums ∧
      (Model.read (annotate content c).text rules).messages.keys =
        (Model.read content rules).messages.keys ∧
      ∀ m, (Model.read (annotate content c).text rules).fields? m =
          ((Model.read content rules).fields? m).map
            (List.filter fun g => !decide (Rewritten content c (g.line - 1))) ∧
        ∀ fields, (Model.read content rules).fields? m = some fields →
          ∀ g ∈ fields, ∃ i, g.line = i + 1 ∧ i < (lines content).length := by
  rw [read_annotate]
  refine ⟨rfl, NameMap.keys_mapValues .., fun m => ⟨Model.fields?_without .., ?_⟩⟩
  intro fields hfields g hg
  obtain ⟨i, line, declared⟩ := exists_declaredIn hfields hg
  exact ⟨i, declared.number, (List.getElem?_eq_some_iff.1 declared.atLine).1⟩

theorem select_annotate_subset (content : Text) (c : Candidates) (rules : NamingRules)
    (types accessors : NameSet) :
    select types (Model.read (annotate content c).text rules) accessors ⊆
      select types (Model.read content rules) accessors := by
  rintro ⟨m, f⟩ h
  rw [read_annotate] at h
  obtain ⟨hused, henum, ⟨fields', hfields', g, hg, rfl⟩, unread⟩ := mem_select_iff.1 h
  rw [Model.fields?_without, Option.map_eq_some_iff] at hfields'
  obtain ⟨fields, hfields, rfl⟩ := hfields'
  exact mem_select_iff.2
    ⟨hused, henum, ⟨fields, hfields, g, (List.mem_filter.1 hg).1, rfl⟩, unread⟩

end Reread

end LazyFields
