import LazyFields.Config.Basic
import LazyFields.Proofs.Schema.Depth

/-!
# Fields of the body and fields of blocks

The reader looks at the depth after a line, the declaration stands at its start.  A field is
therefore kept for the message whose body its line comes back to, and it was declared directly in
that body exactly when the braces behind its declaration balance.
-/
namespace LazyFields.Schema
open Text

/-- The line of the field stands in the message, with no block of it open before the line. -/
def Direct (content m : Text) (g : Field) : Prop :=
  StandsIn ((lines content).map trim) (g.line - 1) m 1

section Braces
variable {type name rest line t : Text}

theorem braceBalance_of_class {p : Char → Bool} (h₀ : p '\x7b' = false) (h₁ : p '\x7d' = false)
    (inside : ∀ c ∈ t, p c = true) : braceBalance t = 0 :=
  braceBalance_eq_zero (not_mem_of_class h₀ inside) (not_mem_of_class h₁ inside)

theorem braceBalance_of_blank (h : Blank t) : braceBalance t = 0 :=
  braceBalance_of_class (by decide) (by decide) h

theorem braceBalance_trim (line : Text) : braceBalance (trim line) = braceBalance line := by
  obtain ⟨lead, tail, hlead, htail, hline⟩ := exists_trim line
  conv_rhs => rw [hline, braceBalance_append, braceBalance_append, braceBalance_of_blank hlead,
    braceBalance_of_blank htail, zero_add, add_zero]

theorem braceBalance_cons {c : Char} (h₀ : c ≠ '\x7b') (h₁ : c ≠ '\x7d') (t : Text) :
    braceBalance (c :: t) = braceBalance t := by
  rw [← List.singleton_append, braceBalance_append, braceBalance_eq_zero (by simpa using h₀.symm)
    (by simpa using h₁.symm), zero_add]

theorem braceBalance_of_declares (h : Declares type name rest line) (htype : Row isTypeName type)
    (hname : FieldName name) : braceBalance line = braceBalance rest := by
  obtain ⟨hlead, ⟨hsep, hbefore, hafter, hdigits⟩, hgap⟩ := h
  simp only [braceBalance_append, braceBalance_cons (c := '=') (by decide) (by decide),
    braceBalance_cons (c := ';') (by decide) (by decide), braceBalance_of_blank hlead,
    braceBalance_of_blank hsep.blank, braceBalance_of_blank hbefore, braceBalance_of_blank hafter,
    braceBalance_of_blank hgap, braceBalance_of_class (by decide) (by decide) htype.2,
    braceBalance_of_class (by decide) (by decide) hname.row.2,
    braceBalance_of_class (by decide) (by decide) hdigits.2, zero_add]

end Braces

section Stored
variable {content : Text} {enums : NameSet} {rules : NamingRules} {m : Text} {fields : List Field}
  {g : Field} {i : Nat} {line : Text}

/-- A line directly in a body at its end stood in the message, deeper by what it closes. -/
theorem InBody.exists_standsIn (h : InBody content i m) (hline : (lines content)[i]? = some line) :
    ∃ d, StandsIn ((lines content).map trim) i m d ∧ d + braceBalance line = 1 := by
  rw [InBody, Nesting.getElem?_trace, List.getElem?_map, hline, Option.map_some, Option.map_some,
    Option.some.injEq] at h
  obtain ⟨-, -, hs⟩ | ⟨m, -, -, hs⟩ | ⟨m, d, -, -, hs⟩ | ⟨m, d, depth, here, hdepth, -, hs⟩ :=
    Nesting.step_cases (Nesting.after .outside (((lines content).map trim).take i)) (trim line)
  all_goals rw [hs] at h
  · simp at h
  · simp at h
  · simp at h
  · obtain ⟨hrole, hnext⟩ := Prod.mk.inj h
    obtain ⟨rfl, rfl⟩ := Nesting.inside.inj hnext
    rw [braceBalance_trim] at hdepth
    exact ⟨d, here, hdepth⟩

/-- Each field that is kept for a message was declared on its line, which stood in the message,
deeper in blocks by as many braces as it closes behind the declaration.  So it was declared
directly in the body exactly when the braces behind its declaration balance. -/
theorem direct_iff_of_stored (h : (readMessages content enums rules).find? m = some fields)
    (hg : g ∈ fields) :
    ∃ i line d, g.line = i + 1 ∧ (lines content)[i]? = some line ∧
      Declares g.type g.name (afterSemicolon line) line ∧
      StandsIn ((lines content).map trim) i m d ∧ d + braceBalance (afterSemicolon line) = 1 ∧
      (Direct content m g ↔ braceBalance (afterSemicolon line) = 0) := by
  obtain ⟨i, line, hline, hbody, hlazy⟩ := exists_line_of_mem h hg
  obtain ⟨-, -, d, hd, -, rfl⟩ := lazyable?_eq_some_iff.1 hlazy
  obtain ⟨htype, hname, declares⟩ := declares_of_fieldDeclaration? hd
  obtain ⟨depth, here, hdepth⟩ := hbody.exists_standsIn hline
  rw [braceBalance_of_declares declares htype hname] at hdepth
  refine ⟨i, line, depth, Nat.add_comm 1 i, hline, declares, here, hdepth, ?_⟩
  rw [Direct, Nat.add_sub_cancel_left]
  constructor
  · intro direct
    obtain ⟨-, rfl⟩ := here.unique direct
    omega
  · intro balanced
    obtain rfl : depth = 1 := by omega
    exact here

end Stored

/-- A message with a field of its own and a block whose last field shares a line with its end. -/
def nestedField : Text :=
  ("message AProto \x7b\n  CProto c = 1; // \x7b\x7d\n  message Inner \x7b\n" ++
    "    BProto b = 1; \x7d\n\x7d\n").toList

theorem find?_nestedField : (readMessages nestedField ∅ ({} : NamingConfig).rules).find?
      "AProto".toList =
    some [⟨"c".toList, "CProto".toList, 1, 2⟩, ⟨"b".toList, "BProto".toList, 1, 4⟩] := by
  decide +kernel

/-- The message's own field is direct, though there are braces on its line, and the other is not. -/
theorem direct_of_nestedField :
    (readMessages nestedField ∅ ({} : NamingConfig).rules).find? "AProto".toList =
      some [⟨"c".toList, "CProto".toList, 1, 2⟩, ⟨"b".toList, "BProto".toList, 1, 4⟩] ∧
    Direct nestedField "AProto".toList ⟨"c".toList, "CProto".toList, 1, 2⟩ ∧
    ¬Direct nestedField "AProto".toList ⟨"b".toList, "BProto".toList, 1, 4⟩ := by
  refine ⟨find?_nestedField, ?_, ?_⟩
  · obtain ⟨i, line, d, number, hline, -, -, -, direct⟩ :=
      direct_iff_of_stored find?_nestedField List.mem_cons_self
    obtain rfl : 1 = i := Nat.succ.inj number
    have atLine : (lines nestedField)[1]? = some "  CProto c = 1; // \x7b\x7d".toList := by
      decide +kernel
    obtain rfl := Option.some.inj (hline.symm.trans atLine)
    exact direct.2 (by decide)
  · obtain ⟨i, line, d, number, hline, -, -, -, direct⟩ :=
      direct_iff_of_stored find?_nestedField (List.mem_cons_of_mem _ List.mem_cons_self)
    obtain rfl : 3 = i := Nat.succ.inj number
    have atLine : (lines nestedField)[3]? = some "    BProto b = 1; \x7d".toList := by
      decide +kernel
    obtain rfl := Option.some.inj (hline.symm.trans atLine)
    exact mt direct.1 (by decide)

/-- The reader keeps the field of the block for the message. -/
theorem not_direct_of_nestedField :
    ¬∀ m fields g, (readMessages nestedField ∅ ({} : NamingConfig).rules).find? m = some fields →
      g ∈ fields → Direct nestedField m g := by
  intro direct
  have kept := direct "AProto".toList _ ⟨"b".toList, "BProto".toList, 1, 4⟩ find?_nestedField
    (List.mem_cons_of_mem _ List.mem_cons_self)
  have inside : StandsIn ((lines nestedField).map trim) 3 "AProto".toList 2 := by
    decide +kernel
  exact absurd (kept.unique inside).2 (by decide)

end LazyFields.Schema
