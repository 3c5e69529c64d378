import LazyFields.Proofs.Annotation.Layout

/-!
# Two recognisers of a field line

The reader recognises the declaration of a field on a trimmed line, whatever follows it; the
annotation recognises the declaration of a field of a given name on a line with its blanks and its
line end.  A line is marked exactly when it is, but for the blanks around it, a declaration with a
type of one word and with nothing behind its semicolon.  On such a line the reader finds the same
name and the same type, or nothing when the digits are not those of an ordinal.
-/
namespace LazyFields
open Text Schema

/-- The line is the declaration of a field and nothing else: a type of one word, blanks, the name,
an equals sign, decimal digits, and a final semicolon, with or without blanks before and after the
equals sign and before the semicolon. -/
inductive Declaration (type name digits : Text) : Text → Prop
  | intro {sep before after gap : Text} (htype : Row isWord type) (hsep : Row isBlank sep)
      (hbefore : Blank before) (hafter : Blank after) (hdigits : Row isDecimalDigit digits)
      (hgap : Blank gap) :
      Declaration type name digits
        (type ++ (sep ++ (name ++ (before ++ '=' :: (after ++ (digits ++ (gap ++ [';'])))))))

section Recognised
variable {type name digits line : Text}

theorem Declaration.word (h : Declaration type name digits line) : Row isWord type := by
  obtain ⟨htype, -, -, -, -, -⟩ := h
  exact htype

theorem Declaration.digits_ne_nil (h : Declaration type name digits line) : digits ≠ [] := by
  obtain ⟨-, -, -, -, hdigits, -⟩ := h
  exact hdigits.1

/-- The reader finds the field that a line declares, unless the digits are not those of an
ordinal. -/
theorem Declaration.read_eq (h : Declaration type name digits line) (hname : FieldName name) :
    fieldDeclaration? line = (ordinal? digits).map fun n => ⟨type, name, n⟩ := by
  obtain ⟨htype, hsep, hbefore, hafter, hdigits, hgap⟩ := h
  exact fieldDeclaration?_append htype.typeName hsep hname hbefore hafter hdigits hgap

theorem exists_declaration_iff (tight : Tight line) : (∃ type digits,
    Declaration type name digits line) ↔ ∃ type, Row isWord type ∧ Declares type name [] line := by
  constructor
  · rintro ⟨type, digits, ⟨htype, hsep, hbefore, hafter, hdigits, hgap⟩⟩
    rename_i sep before after gap
    refine ⟨type, htype, ?_⟩
    have declares : Declares type name [] ([] ++ (type ++ sep ++ name ++ before ++
        '=' :: (after ++ digits) ++ (gap ++ [';']))) :=
      .intro blank_nil (.intro hsep hbefore hafter hdigits) hgap
    simpa using declares
  · rintro ⟨type, htype, ⟨hlead, ⟨hsep, hbefore, hafter, hdigits⟩, hgap⟩⟩
    rename_i lead gap sep before after digits
    obtain rfl : lead = [] := by
      cases lead with
      | nil => rfl
      | cons c lead =>
        have visible := tight c (.inl rfl)
        rw [(blank_cons.1 hlead).1] at visible
        contradiction
    have declaration : Declaration type name digits _ :=
      .intro htype hsep hbefore hafter hdigits hgap
    exact ⟨type, digits, by simpa using declaration⟩

/-- A piece is marked for one name exactly when it carries no marker and its trimmed line is the
declaration of a field of this name. -/
theorem mark?_singleton_isSome_iff {piece : Text} :
    (mark? (.ofList [name]) piece).isSome = true ↔ holds lazyMarker piece = false ∧
      ∃ type digits, Declaration type name digits (trim piece) := by
  rw [mark?_isSome_iff, exists_declaration_iff (tight_trim piece)]
  apply and_congr_right
  intro
  constructor
  · rintro ⟨type, field, hfield, tail, htype, htail, declares⟩
    obtain rfl : field = name := by simpa using hfield
    have trimmed := (declares_trim_iff htype).2 ⟨tail, htail, declares⟩
    rw [trim_divideEnd] at trimmed
    exact ⟨type, htype, trimmed⟩
  · rintro ⟨type, htype, trimmed⟩
    rw [← trim_divideEnd] at trimmed
    obtain ⟨tail, htail, declares⟩ := (declares_trim_iff htype).1 trimmed
    exact ⟨type, name, by simp, tail, htype, htail, declares⟩

theorem exists_declaration_of_fieldDeclaration? {n : Nat} (tight : Tight line)
    (h : fieldDeclaration? line = some ⟨type, name, n⟩) (undotted : '.' ∉ type)
    (final : afterSemicolon line = []) : ∃ type digits, Declaration type name digits line := by
  obtain ⟨front, gap, rest, rfl, hfront, hgap, typeName, hname⟩ := exists_of_fieldDeclaration? h
  have declares : Declares type name rest (front ++ gap ++ ';' :: rest) := by
    have parts : Declares type name rest _ := .intro blank_nil hfront hgap
    simpa using parts
  rw [afterSemicolon_eq declares typeName hname] at final
  rw [final] at declares
  rw [final] at tight ⊢
  exact (exists_declaration_iff tight).2 ⟨type, (row_isWord_iff typeName).2 undotted, declares⟩

end Recognised

/-- The two recognisers agree.  A piece is marked for a name exactly when it carries no marker and
is, but for the blanks around it, the declaration of a field of this name and nothing else.  Then
the reader finds the name and the type on it, or nothing because the digits are not those of an
ordinal.  And what the reader finds with an unqualified type, at the end of a line without a marker,
is marked. -/
theorem recognisers_agree (piece : Text) {name : Text} (hname : FieldName name) :
    ((mark? (.ofList [name]) piece).isSome = true ↔ holds lazyMarker piece = false ∧
      ∃ type digits, Declaration type name digits (trim piece)) ∧
    ((mark? (.ofList [name]) piece).isSome = true →
      ∀ type digits, Declaration type name digits (trim piece) → '.' ∉ type ∧
        (OrdinalDigits digits ∧ fieldDeclaration? (trim piece) =
            some ⟨type, name, Nat.ofDigitChars 10 digits 0⟩ ∨
          ¬OrdinalDigits digits ∧ fieldDeclaration? (trim piece) = none)) ∧
    (∀ type n, fieldDeclaration? (trim piece) = some ⟨type, name, n⟩ → '.' ∉ type →
      afterSemicolon (trim piece) = [] → holds lazyMarker piece = false →
        (mark? (.ofList [name]) piece).isSome = true) := by
  refine ⟨mark?_singleton_isSome_iff, fun _ type digits declared => ⟨?_, ?_⟩, ?_⟩
  · exact (row_isWord_iff declared.word.typeName).1 declared.word
  · rw [declared.read_eq hname]
    rcases ordinal?_cases declared.digits_ne_nil with ⟨ordinal, read⟩ | ⟨other, unread⟩
    · exact .inl ⟨ordinal, by rw [read, Option.map_some]⟩
    · exact .inr ⟨other, by rw [unread, Option.map_none]⟩
  · intro type n found undotted final unmarked
    exact mark?_singleton_isSome_iff.2 ⟨unmarked,
      exists_declaration_of_fieldDeclaration? (tight_trim piece) found undotted final⟩

/-- A line whose ordinal is a digit of another script. -/
def foreignDigit : Text := "\tAProto b = \u0661;\r\n".toList

def leadingZero : Text := "\tAProto b=01 ; \r\n".toList

/-- Both lines are marked, but the reader finds a field on the second one only. -/
theorem recognised_of_foreignDigit :
    FieldName "b".toList ∧
    (mark? (.ofList ["b".toList]) foreignDigit).isSome = true ∧
    (∃ type digits, Declaration type "b".toList digits (trim foreignDigit) ∧
      ¬OrdinalDigits digits ∧ fieldDeclaration? (trim foreignDigit) = none) ∧
    fieldDeclaration? (trim leadingZero) = some ⟨"AProto".toList, "b".toList, 1⟩ ∧
    (mark? (.ofList ["b".toList]) leadingZero).isSome = true := by
  have hname : FieldName "b".toList := ⟨'b', [], rfl, by decide, by simp⟩
  have marked : (mark? (.ofList ["b".toList]) foreignDigit).isSome = true := by decide +kernel
  have unread : fieldDeclaration? (trim foreignDigit) = none := by decide +kernel
  have read : fieldDeclaration? (trim leadingZero) =
      some ⟨"AProto".toList, "b".toList, 1⟩ := by decide +kernel
  obtain ⟨recognised, found, -⟩ := recognisers_agree foreignDigit hname
  obtain ⟨-, -, complete⟩ := recognisers_agree leadingZero hname
  obtain ⟨-, type, digits, declared⟩ := recognised.1 marked
  obtain ⟨-, ⟨-, other⟩ | ⟨foreign, none⟩⟩ := found marked type digits declared
  · rw [unread] at other
    contradiction
  · exact ⟨hname, marked, ⟨type, digits, declared, foreign, none⟩, read,
      complete _ _ read (by decide) (by decide +kernel) (by decide +kernel)⟩

end LazyFields
