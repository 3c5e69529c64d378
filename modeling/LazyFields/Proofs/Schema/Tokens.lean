import LazyFields.Proofs.Schema.Grammar

/-!
# The tokens of a field line

Three ways to point at a part of a line without parsing it: the first token, the last token before
the first equals sign, and what follows the first semicolon.  On a line that declares a field they
are its type, its name, and what stands behind its declaration.
-/
namespace LazyFields.Schema
open Text

/-- What stands between the first row of blanks of a text, which may be empty, and the next. -/
def firstToken (t : Text) : Text := (trimStart t).takeWhile fun c => !isBlank c

def typeToken (line : Text) : Text := firstToken line

/-- The token before the first equals sign of a line. -/
def nameToken (line : Text) : Text :=
  (firstToken (line.takeWhile (· != '=')).reverse).reverse

def afterSemicolon (line : Text) : Text := (line.dropWhile (· != ';')).tail

/-- The line declares a field of a type: blanks may stand before the declaration and before its
semicolon, and anything behind it. -/
inductive Declares (type name rest : Text) : Text → Prop
  | intro {lead front gap : Text} (hlead : Blank lead) (hfront : Assigns type name front)
      (hgap : Blank gap) : Declares type name rest (lead ++ (front ++ (gap ++ ';' :: rest)))

theorem holds_lazyMarker_trim (t : Text) : holds lazyMarker (trim t) = holds lazyMarker t := by
  have marker : lazyMarker = '[' :: ("lazy = true".toList ++ [']']) := rfl
  rw [Bool.eq_iff_iff, holds_iff_infix, holds_iff_infix, marker]
  exact infix_trim_iff (by decide) (by decide) t

theorem firstToken_append {lead token rest : Text} (hlead : Blank lead) (ne : token ≠ [])
    (visible : ∀ c ∈ token, isBlank c = false)
    (stop : ∀ c, rest.head? = some c → isBlank c = true) :
    firstToken (lead ++ (token ++ rest)) = token := by
  have start : ∀ c, (token ++ rest).head? = some c → isBlank c = false := by
    intro c hc
    rw [List.head?_append_of_ne_nil _ ne] at hc
    exact visible c (List.mem_of_mem_head? hc)
  rw [firstToken, trimStart_append_of_blank hlead, trimStart_eq_self start]
  exact takeWhile_append_stop (by simpa using visible) (by simpa using stop)

theorem bne_of_not_mem {mark : Char} {front : Text} (h : mark ∉ front) (c : Char) (hc : c ∈ front) :
    (c != mark) = true := by
  rw [bne_iff_ne]
  rintro rfl
  exact h hc

section Declared
variable {type name rest line : Text}

theorem typeToken_eq (h : Declares type name rest line) (htype : Row isTypeName type) :
    typeToken line = type := by
  obtain ⟨hlead, ⟨hsep, -, -, -⟩, -⟩ := h
  have visible : ∀ c ∈ type, isBlank c = false :=
    fun c hc => isBlank_eq_false_of_isTypeName (htype.2 c hc)
  simp only [List.append_assoc]
  exact firstToken_append hlead htype.1 visible fun c hc => hsep.head? hc

theorem nameToken_eq (h : Declares type name rest line) (htype : Row isTypeName type)
    (hname : FieldName name) : nameToken line = name := by
  obtain ⟨hlead, ⟨hsep, hbefore, -, -⟩, -⟩ := h
  rename_i lead gap sep before after digits
  have visible : ∀ c ∈ name.reverse, isBlank c = false := fun c hc =>
    isBlank_eq_false_of_isWord (hname.row.2 c (List.mem_reverse.1 hc))
  have noEquals : '=' ∉ lead ++ (type ++ (sep ++ (name ++ before))) := by
    simp only [List.mem_append, not_or]
    exact ⟨not_mem_of_class (by decide) hlead, not_mem_of_class (by decide) htype.2,
      not_mem_of_class (by decide) hsep.2, not_mem_of_class (by decide) hname.row.2,
      not_mem_of_class (by decide) hbefore⟩
  have split : lead ++ (type ++ sep ++ name ++ before ++ '=' :: (after ++ digits) ++
        (gap ++ ';' :: rest)) =
      (lead ++ (type ++ (sep ++ (name ++ before)))) ++
        '=' :: (after ++ (digits ++ (gap ++ ';' :: rest))) := by simp
  rw [nameToken, split, takeWhile_append_stop (bne_of_not_mem noEquals) (by simp)]
  have back : (lead ++ (type ++ (sep ++ (name ++ before)))).reverse =
      before.reverse ++ (name.reverse ++ (sep.reverse ++ (type.reverse ++ lead.reverse))) := by simp
  have hsep' : Row isBlank sep.reverse := ⟨by simpa using hsep.1, hsep.blank.reverse⟩
  rw [back, firstToken_append hbefore.reverse (by simpa using hname.row.1) visible
    fun c hc => hsep'.head? hc, List.reverse_reverse]

theorem afterSemicolon_eq (h : Declares type name rest line) (htype : Row isTypeName type)
    (hname : FieldName name) : afterSemicolon line = rest := by
  obtain ⟨hlead, ⟨hsep, hbefore, hafter, hdigits⟩, hgap⟩ := h
  rename_i lead gap sep before after digits
  have noSemicolon :
      ';' ∉ lead ++ (type ++ sep ++ name ++ before ++ '=' :: (after ++ digits) ++ gap) := by
    simp only [List.mem_append, List.mem_cons, not_or]
    exact ⟨not_mem_of_class (by decide) hlead, ⟨⟨⟨⟨not_mem_of_class (by decide) htype.2,
      not_mem_of_class (by decide) hsep.2⟩, not_mem_of_class (by decide) hname.row.2⟩,
      not_mem_of_class (by decide) hbefore⟩, by decide,
      not_mem_of_class (by decide) hafter, not_mem_of_class (by decide) hdigits.2⟩,
      not_mem_of_class (by decide) hgap⟩
  have split : lead ++ (type ++ sep ++ name ++ before ++ '=' :: (after ++ digits) ++
        (gap ++ ';' :: rest)) =
      (lead ++ (type ++ sep ++ name ++ before ++ '=' :: (after ++ digits) ++ gap)) ++
        ';' :: rest := by simp
  rw [afterSemicolon, split, dropWhile_append_stop (bne_of_not_mem noSemicolon) (by simp),
    List.tail_cons]

end Declared

end LazyFields.Schema
