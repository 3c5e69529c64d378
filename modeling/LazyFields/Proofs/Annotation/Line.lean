import LazyFields.Proofs.Schema.Nesting
import LazyFields.Proofs.Schema.Tokens
import LazyFields.Proofs.Text.Lines

/-!
# The marker on one line

A line is marked exactly when it declares one of the fields with a type of one word, has nothing
but blanks behind its semicolon, and carries no marker yet.  The marked line keeps the shape of
the line, its line end, and all that stands before the blanks at its semicolon.
-/
namespace LazyFields
open Text Schema

theorem beforeSemicolon?_eq_some_iff {line front gap : Text} :
    beforeSemicolon? line = some (front, gap) ↔
      (∃ tail, line = front ++ (gap ++ ';' :: tail) ∧ Blank gap ∧ Blank tail) ∧
        ∀ c, front.getLast? = some c → isBlank c = false := by
  constructor
  · intro h
    obtain ⟨tail, htail, hline⟩ := exists_trimEnd line
    unfold beforeSemicolon? at h
    split at h
    · rename_i rest hrest
      obtain ⟨rfl, rfl⟩ : (rest.dropWhile isBlank).reverse = front ∧
          (rest.takeWhile isBlank).reverse = gap := by simpa using h
      have hgap : Blank (rest.takeWhile isBlank) :=
        fun c hc => List.all_eq_true.1 List.all_takeWhile c hc
      refine ⟨⟨tail, ?_, hgap.reverse, htail⟩, fun c hc => ?_⟩
      · have hend : trimEnd line = rest.reverse ++ [';'] := by
          rw [← List.reverse_reverse (trimEnd line), hrest, List.reverse_cons]
        have hrev : rest.reverse =
            (rest.dropWhile isBlank).reverse ++ (rest.takeWhile isBlank).reverse := by
          rw [← List.reverse_append, List.takeWhile_append_dropWhile]
        conv_lhs => rw [hline, hend, hrev]
        simp
      · rw [List.getLast?_reverse] at hc
        exact head?_trimStart hc
    · contradiction
  · rintro ⟨⟨tail, rfl, hgap, htail⟩, stop⟩
    have hend : trimEnd (front ++ (gap ++ ';' :: tail)) = front ++ (gap ++ [';']) := by
      rw [trimEnd_eq_iff (by rw [← List.append_assoc, List.getLast?_append]; simp; decide)]
      exact ⟨tail, htail, by simp⟩
    have back : (front ++ (gap ++ [';'])).reverse = ';' :: (gap.reverse ++ front.reverse) := by simp
    have stop' : ∀ c, front.reverse.head? = some c → isBlank c = false := by simpa using stop
    have take : (gap.reverse ++ front.reverse).takeWhile isBlank = gap.reverse :=
      takeWhile_append_stop hgap.reverse stop'
    have drop : (gap.reverse ++ front.reverse).dropWhile isBlank = front.reverse :=
      dropWhile_append_stop hgap.reverse stop'
    simp only [beforeSemicolon?, hend, back, take, drop, List.reverse_reverse]

theorem assignsOrdinal_iff {field t : Text} :
    assignsOrdinal field t = true ↔ ∃ before after digits,
      t = field ++ (before ++ '=' :: (after ++ digits)) ∧ Blank before ∧ Blank after ∧
        Row isDecimalDigit digits := by
  constructor
  · intro h
    unfold assignsOrdinal at h
    split at h
    · contradiction
    · rename_i t₁ h₁
      split at h
      · contradiction
      · rename_i t₂ h₂
        obtain ⟨before, hbefore, rfl⟩ := exists_of_after?_trimStart h₂
        obtain ⟨after, hafter, ht₂⟩ := exists_trimStart t₂
        refine ⟨before, after, trimStart t₂, ?_, hbefore, hafter, ?_⟩
        · rw [← ht₂]
          exact after?_eq_some_iff.1 h₁
        · simpa [Row] using h
  · rintro ⟨before, after, digits, rfl, hbefore, hafter, hdigits⟩
    have digit : ∀ c, digits.head? = some c → isBlank c = false := fun c hc =>
      isBlank_eq_false_of_isDecimalDigit (hdigits.2 c (List.mem_of_mem_head? hc))
    have equals := trimStart_append_cons hbefore (c := '=') (by decide) (after ++ digits)
    have ordinal : trimStart (after ++ digits) = digits := by
      rw [trimStart_append_of_blank hafter, trimStart_eq_self digit]
    simpa [assignsOrdinal, after?_eq_some_iff.2, equals, after?, ordinal, Row] using hdigits

theorem blankThenAssigns_iff {field t : Text} :
    blankThenAssigns field t = true ↔ ∃ sep rest,
      t = sep ++ rest ∧ Row isBlank sep ∧ assignsOrdinal field rest = true := by
  induction t with
  | nil =>
    simp only [blankThenAssigns, Bool.false_eq_true, false_iff]
    rintro ⟨sep, rest, h, ⟨ne, -⟩, -⟩
    exact ne (List.append_eq_nil_iff.1 h.symm).1
  | cons c t ih =>
    simp only [blankThenAssigns, Bool.and_eq_true, Bool.or_eq_true, ih]
    constructor
    · rintro ⟨hc, h | ⟨sep, rest, rfl, hsep, h⟩⟩
      · exact ⟨[c], t, rfl, ⟨by simp, by simpa using hc⟩, h⟩
      · refine ⟨c :: sep, rest, rfl, ⟨by simp, ?_⟩, h⟩
        exact blank_cons.2 ⟨hc, hsep.blank⟩
    · rintro ⟨sep, rest, h, ⟨ne, hsep⟩, hrest⟩
      cases sep with
      | nil => exact absurd rfl ne
      | cons d sep =>
        obtain ⟨rfl, rfl⟩ := List.cons.inj h
        obtain ⟨hc, hsep⟩ := blank_cons.1 hsep
        refine ⟨hc, ?_⟩
        cases sep with
        | nil => exact .inl hrest
        | cons e sep => exact .inr ⟨e :: sep, rest, rfl, ⟨by simp, hsep⟩, hrest⟩

theorem declaresField_iff {field t : Text} :
    declaresField field t = true ↔ ∃ lead type body,
      t = lead ++ body ∧ Blank lead ∧ Row isWord type ∧ Assigns type field body := by
  constructor
  · intro h
    unfold declaresField at h
    split at h
    · contradiction
    · rename_i type rest hrow
      obtain ⟨lead, hlead, ht⟩ := exists_trimStart t
      obtain ⟨hbody, htype⟩ := exists_of_row? hrow
      obtain ⟨sep, rest', rfl, hsep, hassign⟩ := blankThenAssigns_iff.1 h
      obtain ⟨before, after, digits, rfl, hbefore, hafter, hdigits⟩ := assignsOrdinal_iff.1 hassign
      refine ⟨lead, type, _, ht, hlead, htype, ?_⟩
      rw [hbody]
      have body : Assigns type field _ := .intro hsep hbefore hafter hdigits
      simpa using body
  · rintro ⟨lead, type, _, rfl, hlead, htype, ⟨hsep, hbefore, hafter, hdigits⟩⟩
    rename_i sep before after digits
    have start : ∀ c, (type ++ (sep ++ (field ++ (before ++ '=' :: (after ++ digits))))).head? =
        some c → isBlank c = false := fun c hc =>
      isBlank_eq_false_of_isWord (htype.head? hc)
    have stop : ∀ c, (sep ++ (field ++ (before ++ '=' :: (after ++ digits)))).head? = some c →
        isWord c = false := fun c hc => isWord_eq_false_of_isBlank (hsep.head? hc)
    simp only [declaresField, List.append_assoc, trimStart_append_of_blank hlead,
      trimStart_eq_self start, row?_append htype stop]
    exact blankThenAssigns_iff.2
      ⟨sep, _, rfl, hsep,
        assignsOrdinal_iff.2 ⟨before, after, digits, rfl, hbefore, hafter, hdigits⟩⟩

theorem exists_digit_of_declaresField {field front : Text} (h : declaresField field front = true) :
    ∃ d, front.getLast? = some d ∧ isDecimalDigit d = true := by
  obtain ⟨lead, type, _, rfl, -, -, ⟨-, -, -, hdigits⟩⟩ := declaresField_iff.1 h
  rename_i sep before after digits
  have split : lead ++ (type ++ sep ++ field ++ before ++ '=' :: (after ++ digits)) =
      (lead ++ (type ++ sep ++ field ++ before ++ '=' :: after)) ++ digits := by simp
  have last := List.getLast?_eq_some_getLast hdigits.1
  refine ⟨_, ?_, hdigits.2 _ (List.getLast_mem hdigits.1)⟩
  rw [split, List.getLast?_append_of_ne_nil _ hdigits.1, last]

theorem getLast?_of_declaresField {field front : Text} (h : declaresField field front = true)
    (c : Char) (hc : front.getLast? = some c) : isBlank c = false := by
  obtain ⟨d, hd, digit⟩ := exists_digit_of_declaresField h
  obtain rfl : d = c := Option.some.inj (hd.symm.trans hc)
  exact isBlank_eq_false_of_isDecimalDigit digit

theorem mark?_eq_some_iff {fields : NameSet} {piece new : Text} :
    mark? fields piece = some new ↔ holds lazyMarker piece = false ∧ ∃ front gap tail,
      (divideEnd piece).1 = front ++ (gap ++ ';' :: tail) ∧ Blank gap ∧ Blank tail ∧
        (∃ field ∈ fields, declaresField field front = true) ∧
        new = front ++ ' ' :: lazyMarker ++ gap ++ ';' :: (divideEnd piece).2 := by
  constructor
  · intro h
    simp only [mark?] at h
    split at h
    · contradiction
    · rename_i unmarked
      split at h
      · contradiction
      · rename_i front gap hbefore
        simp only [Option.ite_none_right_eq_some, Option.some.injEq, List.any_eq_true] at h
        obtain ⟨declared, hnew⟩ := h
        obtain ⟨⟨tail, hline, hgap, htail⟩, -⟩ := beforeSemicolon?_eq_some_iff.1 hbefore
        exact ⟨by simpa using unmarked, front, gap, tail, hline, hgap, htail, declared, hnew.symm⟩
  · rintro ⟨unmarked, front, gap, tail, hline, hgap, htail, ⟨field, hfield, declared⟩, rfl⟩
    have hbefore : beforeSemicolon? (divideEnd piece).1 = some (front, gap) :=
      beforeSemicolon?_eq_some_iff.2
        ⟨⟨tail, hline, hgap, htail⟩, getLast?_of_declaresField declared⟩
    have some_field : (fields.toList.any fun f => declaresField f front) = true :=
      List.any_eq_true.2 ⟨field, hfield, declared⟩
    simp [mark?, unmarked, hbefore, some_field]

/-- A line is marked exactly when it declares one of the fields, has nothing but blanks behind its
semicolon, and carries no marker. -/
theorem mark?_isSome_iff {fields : NameSet} {piece : Text} :
    (mark? fields piece).isSome = true ↔ holds lazyMarker piece = false ∧
      ∃ type, ∃ field ∈ fields, ∃ tail, Row isWord type ∧ Blank tail ∧
        Declares type field tail (divideEnd piece).1 := by
  rw [Option.isSome_iff_exists]
  constructor
  · rintro ⟨new, h⟩
    obtain ⟨unmarked, front, gap, tail, hline, hgap, htail, ⟨field, hfield, declared⟩, -⟩ :=
      mark?_eq_some_iff.1 h
    obtain ⟨lead, type, body, rfl, hlead, htype, hbody⟩ := declaresField_iff.1 declared
    refine ⟨unmarked, type, field, hfield, tail, htype, htail, ?_⟩
    rw [hline, List.append_assoc]
    exact .intro hlead hbody hgap
  · rintro ⟨unmarked, type, field, hfield, tail, htype, htail, declared⟩
    generalize hline : (divideEnd piece).1 = line at declared
    obtain ⟨hlead, hbody, hgap⟩ := declared
    refine ⟨_, mark?_eq_some_iff.2 ⟨unmarked, _, _, tail, ?_, hgap, htail,
      ⟨field, hfield, declaresField_iff.2 ⟨_, type, _, rfl, hlead, htype, hbody⟩⟩, rfl⟩⟩
    rw [hline, List.append_assoc]

section Marked
variable {fields : NameSet} {piece new : Text}

theorem holds_of_mark? (h : mark? fields piece = some new) : holds lazyMarker new = true := by
  obtain ⟨-, front, gap, tail, -, -, -, -, rfl⟩ := mark?_eq_some_iff.1 h
  refine holds_iff_infix.2 ⟨front ++ [' '], gap ++ ';' :: (divideEnd piece).2, ?_⟩
  simp

theorem sameEnd_of_mark? (h : mark? fields piece = some new)
    (inside : '\n' ∉ (divideEnd piece).1) : SameEnd piece new := by
  obtain ⟨-, front, gap, tail, hline, -, -, -, rfl⟩ := mark?_eq_some_iff.1 h
  rw [hline] at inside
  refine ⟨(divideEnd piece).1, front ++ ' ' :: lazyMarker ++ gap ++ [';'], (divideEnd piece).2,
    (divideEnd_append piece).symm, by simp, by rwa [hline], ?_, by simp⟩
  have noMarker : '\n' ∉ lazyMarker := by decide
  simp only [List.mem_append, List.mem_cons, not_or] at inside ⊢
  exact ⟨⟨⟨inside.1, by decide, noMarker⟩, inside.2.1⟩, by decide, by simp⟩

theorem sameShape_of_mark? (h : mark? fields piece = some new) :
    SameShape (trim piece) (trim new) := by
  obtain ⟨-, front, gap, tail, hline, hgap, htail, ⟨field, -, declared⟩, rfl⟩ :=
    mark?_eq_some_iff.1 h
  -- both trimmed lines begin with the trimmed front; no braces stand behind it
  have hfront : ¬Blank front := by
    obtain ⟨lead, type, _, rfl, -, htype, ⟨-, -, -, -⟩⟩ := declaresField_iff.1 declared
    have visible := htype.not_blank fun c => isBlank_eq_false_of_isWord
    simp [visible]
  have semicolon : isBlank ';' = false := by decide
  have noBrace : ∀ c, isBlank c = false → c ≠ ';' → c ∉ gap ++ ';' :: tail := by
    intro c hc hne
    simp [hne, not_mem_of_class hc hgap, not_mem_of_class hc htail]
  have noBrace' : ∀ c, isBlank c = false → c ≠ ';' → c ∉ lazyMarker →
      c ∉ ' ' :: (lazyMarker ++ (gap ++ ';' :: (divideEnd piece).2)) := by
    intro c hc hne hmarker
    have hspace : c ≠ ' ' := by
      rintro rfl
      exact absurd hc (by decide)
    simp [hne, hspace, hmarker, not_mem_of_class hc hgap,
      not_mem_of_class hc (blank_divideEnd piece)]
  have split : front ++ ' ' :: lazyMarker ++ gap ++ ';' :: (divideEnd piece).2 =
      front ++ ' ' :: (lazyMarker ++ (gap ++ ';' :: (divideEnd piece).2)) := by simp
  rw [← trim_divideEnd piece, hline, split, trim_append hfront (by simp [semicolon]),
    trim_append hfront (by simp [semicolon])]
  apply sameShape_append
  · exact fun m => noBrace '{' (by decide) (by decide) (mem_of_mem_trimEnd m)
  · exact fun m => noBrace '}' (by decide) (by decide) (mem_of_mem_trimEnd m)
  · exact fun m => noBrace' '{' (by decide) (by decide) (by decide) (mem_of_mem_trimEnd m)
  · exact fun m => noBrace' '}' (by decide) (by decide) (by decide) (mem_of_mem_trimEnd m)

end Marked
end LazyFields
