import LazyFields.Annotation
import LazyFields.Proofs.Text.Blank

/-!
# The parts of a schema line

The recognisers of schema lines cut a line greedily and from the left.  Their classes of
characters are disjoint where two rows meet, so a line has the parts they find exactly when it is
put together from such parts.
-/
namespace LazyFields.Schema
open Text

def Row (p : Char → Bool) (t : Text) : Prop := t ≠ [] ∧ ∀ c ∈ t, p c = true

def FieldName (t : Text) : Prop :=
  ∃ c rest, t = c :: rest ∧ isFieldStart c = true ∧ ∀ d ∈ rest, isFieldRest d = true

theorem fieldName_cons {c : Char} {rest : Text} :
    FieldName (c :: rest) ↔ isFieldStart c = true ∧ rest.all isFieldRest = true := by
  simp [FieldName]

instance : DecidablePred FieldName
  | [] => .isFalse (by simp [FieldName])
  | _ :: _ => decidable_of_iff' _ fieldName_cons

/-- A type, a name, an equals sign and a row of digits, with blanks between them. -/
inductive Assigns (type name : Text) : Text → Prop
  | intro {sep before after digits : Text} (hsep : Row isBlank sep) (hbefore : Blank before)
      (hafter : Blank after) (hdigits : Row isDecimalDigit digits) :
      Assigns type name (type ++ sep ++ name ++ before ++ '=' :: (after ++ digits))

section Characters
variable {c : Char}

theorem bounds_of_isTypeName (h : isTypeName c = true) : 0x2E ≤ c.toNat ∧ c.toNat ≤ 0x7A := by
  simp only [isTypeName, isWord, Char.isAlphanum, Char.isAlpha, Char.isUpper, Char.isLower,
    Char.isDigit, Bool.or_eq_true, Bool.and_eq_true, decide_eq_true_eq, beq_iff_eq] at h
  rcases h with (((⟨h₀, h₁⟩ | ⟨h₀, h₁⟩) | ⟨h₀, h₁⟩) | rfl) | rfl
  · have low : 65 ≤ c.toNat := h₀
    have high : c.toNat ≤ 90 := h₁
    omega
  · have low : 97 ≤ c.toNat := h₀
    have high : c.toNat ≤ 122 := h₁
    omega
  · have low : 48 ≤ c.toNat := h₀
    have high : c.toNat ≤ 57 := h₁
    omega
  · decide
  · decide

theorem isTypeName_of_isWord (h : isWord c = true) : isTypeName c = true := by
  simp [isTypeName, h]

theorem isWord_of_isFieldStart (h : isFieldStart c = true) : isWord c = true := by
  simp only [isFieldStart, Bool.or_eq_true] at h
  rcases h with h | h <;> simp [isWord, Char.isAlphanum, Char.isAlpha, h]

theorem isWord_of_isFieldRest (h : isFieldRest c = true) : isWord c = true := by
  simp only [isFieldRest, Bool.or_eq_true] at h
  rcases h with h | h
  · exact isWord_of_isFieldStart h
  · simp [isWord, Char.isAlphanum, h]

theorem isBlank_eq_false_of_isTypeName (h : isTypeName c = true) : isBlank c = false := by
  obtain ⟨h₀, h₁⟩ := bounds_of_isTypeName h
  exact isBlank_eq_false_of_ascii (by omega) (by omega)

theorem isBlank_eq_false_of_isWord (h : isWord c = true) : isBlank c = false :=
  isBlank_eq_false_of_isTypeName (isTypeName_of_isWord h)

theorem eq_false_of_isBlank {p : Char → Bool} (visible : ∀ c, p c = true → isBlank c = false)
    (h : isBlank c = true) : p c = false := by
  by_contra k
  rw [visible c (by simpa using k)] at h
  contradiction

theorem isTypeName_eq_false_of_isBlank (h : isBlank c = true) : isTypeName c = false :=
  eq_false_of_isBlank (fun _ => isBlank_eq_false_of_isTypeName) h

theorem isWord_eq_false_of_isBlank (h : isBlank c = true) : isWord c = false :=
  eq_false_of_isBlank (fun _ => isBlank_eq_false_of_isWord) h

end Characters

theorem Row.head? {p : Char → Bool} {t : Text} (h : Row p t) {s : Text} {c : Char}
    (hc : (t ++ s).head? = some c) : p c = true := by
  obtain ⟨ne, inside⟩ := h
  rw [List.head?_append_of_ne_nil _ ne] at hc
  exact inside c (List.mem_of_mem_head? hc)

theorem Row.blank {t : Text} (h : Row isBlank t) : Blank t := h.2

theorem Row.not_blank {p : Char → Bool} {t : Text} (h : Row p t)
    (hp : ∀ c, p c = true → isBlank c = false) : ¬Blank t := by
  obtain ⟨ne, inside⟩ := h
  obtain ⟨c, hc⟩ := List.exists_mem_of_ne_nil t ne
  intro k
  have := hp c (inside c hc)
  rw [k c hc] at this
  contradiction

theorem Row.typeName {type : Text} (h : Row isWord type) : Row isTypeName type :=
  ⟨h.1, fun c hc => isTypeName_of_isWord (h.2 c hc)⟩

/-- A type name is a single word exactly when it is not qualified. -/
theorem row_isWord_iff {type : Text} (h : Row isTypeName type) : Row isWord type ↔ '.' ∉ type := by
  constructor
  · rintro word dot
    exact absurd (word.2 '.' dot) (by decide)
  · intro undotted
    refine ⟨h.1, fun c hc => ?_⟩
    have wordOrDot := h.2 c hc
    simp only [isTypeName, Bool.or_eq_true, beq_iff_eq] at wordOrDot
    rcases wordOrDot with word | rfl
    · exact word
    · exact absurd hc undotted

/-- A row is read off the front of a text when the class of what follows it is another one. -/
theorem row?_append {p : Char → Bool} {row rest : Text} (h : Row p row)
    (stop : ∀ c, rest.head? = some c → p c = false) : row? p (row ++ rest) = some (row, rest) :=
  row?_eq_some_iff.2 ⟨rfl, h.1, h.2, stop⟩

theorem row?_append_row {p q : Char → Bool} {row next : Text} (h : Row p row) (hnext : Row q next)
    (apart : ∀ c, q c = true → p c = false) (t : Text) :
    row? p (row ++ (next ++ t)) = some (row, next ++ t) :=
  row?_append h fun c hc => apart c (hnext.head? hc)

/-- A row of visible characters ends before blanks and a mark of another class. -/
theorem eq_false_of_head?_append_cons {p : Char → Bool} {gap : Text} {m : Char}
    (visible : ∀ c, p c = true → isBlank c = false) (hgap : Blank gap) (hm : p m = false) (t : Text)
    (c : Char) (hc : (gap ++ m :: t).head? = some c) : p c = false := by
  cases gap with
  | nil =>
    obtain rfl : m = c := Option.some.inj hc
    exact hm
  | cons d gap =>
    obtain rfl : d = c := Option.some.inj hc
    exact eq_false_of_isBlank visible (blank_cons.1 hgap).1

theorem FieldName.row {t : Text} (h : FieldName t) : Row isWord t := by
  obtain ⟨c, rest, rfl, hc, hrest⟩ := h
  refine ⟨by simp, fun d hd => ?_⟩
  rcases List.mem_cons.1 hd with rfl | hd
  · exact isWord_of_isFieldStart hc
  · exact isWord_of_isFieldRest (hrest d hd)

theorem trimStart_append_cons {gap : Text} (hgap : Blank gap) {c : Char} (hc : isBlank c = false)
    (rest : Text) : trimStart (gap ++ c :: rest) = c :: rest := by
  rw [trimStart_append_of_blank hgap]
  exact trimStart_eq_self (by simpa using hc)

theorem exists_of_after?_trimStart {mark : Char} {t rest : Text}
    (h : after? [mark] (trimStart t) = some rest) :
    ∃ gap, Blank gap ∧ t = gap ++ mark :: rest := by
  obtain ⟨gap, hgap, ht⟩ := exists_trimStart t
  refine ⟨gap, hgap, ?_⟩
  rw [after?_eq_some_iff.1 h] at ht
  simpa using ht

theorem exists_of_row? {p : Char → Bool} {t row rest : Text} (h : row? p t = some (row, rest)) :
    t = row ++ rest ∧ Row p row := by
  obtain ⟨ht, ne, inside, -⟩ := row?_eq_some_iff.1 h
  exact ⟨ht, ne, inside⟩

/-- A line opens a block exactly when it is the keyword, blanks, a name and a brace, with or
without blanks before the brace, and anything after it. -/
theorem opener?_eq_some_iff {keyword line name : Text} :
    opener? keyword line = some name ↔ ∃ sep gap rest,
      line = keyword ++ (sep ++ (name ++ (gap ++ '{' :: rest))) ∧ Row isBlank sep ∧
        Row isWord name ∧ Blank gap := by
  constructor
  · intro h
    simp only [opener?, bind, Option.bind_eq_some_iff, Prod.exists] at h
    obtain ⟨l₁, h₁, sep, l₂, h₂, name', l₃, h₃, rest, h₄, hname⟩ := h
    obtain rfl : name' = name := Option.some.inj hname
    obtain ⟨hl₁, hsep⟩ := exists_of_row? h₂
    obtain ⟨hl₂, hword⟩ := exists_of_row? h₃
    obtain ⟨gap, hgap, hl₃⟩ := exists_of_after?_trimStart h₄
    refine ⟨sep, gap, rest, ?_, hsep, hword, hgap⟩
    rw [after?_eq_some_iff.1 h₁, hl₁, hl₂, hl₃]
  · rintro ⟨sep, gap, rest, rfl, hsep, hword, hgap⟩
    have separator := row?_append_row hsep hword (fun _ => isBlank_eq_false_of_isWord)
      (gap ++ '{' :: rest)
    have stop := eq_false_of_head?_append_cons (m := '{')
      (fun _ => isBlank_eq_false_of_isWord) hgap (by decide) rest
    have brace := trimStart_append_cons hgap (c := '{') (by decide) rest
    simp [opener?, after?_eq_some_iff.2, separator, row?_append hword stop, brace]

theorem exists_of_append_eq_append_cons {c : Char} {line tail front rest : Text} (h : c ∉ tail)
    (e : line ++ tail = front ++ c :: rest) : ∃ rest', line = front ++ c :: rest' := by
  rcases List.append_eq_append_iff.1 e with ⟨mid, -, rfl⟩ | ⟨mid, rfl, hmid⟩
  · simp at h
  · cases mid with
    | nil =>
      rw [List.nil_append] at hmid
      simp [← hmid] at h
    | cons d mid =>
      obtain ⟨rfl, -⟩ := List.cons.inj hmid
      exact ⟨mid, rfl⟩

/-- An opening ends with its brace, so what is put after a line without a brace decides nothing. -/
theorem opener?_append {tail : Text} (h : '{' ∉ tail) (keyword line : Text) :
    opener? keyword (line ++ tail) = opener? keyword line := by
  apply Option.ext
  intro name
  rw [opener?_eq_some_iff, opener?_eq_some_iff]
  constructor
  · rintro ⟨sep, gap, rest, hline, parts⟩
    have hline' : line ++ tail = (keyword ++ (sep ++ (name ++ gap))) ++ '{' :: rest := by
      simpa using hline
    obtain ⟨rest', rfl⟩ := exists_of_append_eq_append_cons h hline'
    exact ⟨sep, gap, rest', by simp, parts⟩
  · rintro ⟨sep, gap, rest, rfl, parts⟩
    exact ⟨sep, gap, rest ++ tail, by simp, parts⟩

theorem exists_of_fieldName? {t name rest : Text} (h : fieldName? t = some (name, rest)) :
    t = name ++ rest ∧ FieldName name := by
  cases t with
  | nil => simp [fieldName?] at h
  | cons c t =>
    simp only [fieldName?, Option.ite_none_right_eq_some, Option.some.injEq, Prod.mk.injEq] at h
    obtain ⟨hc, rfl, rfl⟩ := h
    refine ⟨by simp, c, _, rfl, hc, fun d hd => ?_⟩
    exact List.all_eq_true.1 List.all_takeWhile d hd

/-- The parts of a declared field, each in the class that its recogniser asks for. -/
theorem exists_of_fieldDeclaration? {line : Text} {d : FieldDeclaration}
    (h : fieldDeclaration? line = some d) : ∃ front gap rest,
      line = front ++ gap ++ ';' :: rest ∧ Assigns d.type d.name front ∧ Blank gap ∧
        Row isTypeName d.type ∧ FieldName d.name := by
  simp only [fieldDeclaration?, bind, Option.bind_eq_some_iff, Prod.exists] at h
  obtain ⟨type, l₁, h₁, sep, l₂, h₂, name, l₃, h₃, l₄, h₄, digits, l₅, h₅, l₆, h₆, n, h₇, h₈⟩ := h
  obtain rfl : FieldDeclaration.mk type name n = d := Option.some.inj h₈
  obtain ⟨hline, htype⟩ := exists_of_row? h₁
  obtain ⟨hl₁, hsep⟩ := exists_of_row? h₂
  obtain ⟨hl₂, hname⟩ := exists_of_fieldName? h₃
  obtain ⟨before, hbefore, hl₃⟩ := exists_of_after?_trimStart h₄
  obtain ⟨after, hafter, hl₄⟩ := exists_trimStart l₄
  obtain ⟨hl₅, hdigits⟩ := exists_of_row? h₅
  obtain ⟨gap, hgap, hl₆⟩ := exists_of_after?_trimStart h₆
  refine ⟨_, gap, l₆, ?_, .intro hsep hbefore hafter hdigits, hgap, htype, hname⟩
  rw [hline, hl₁, hl₂, hl₃, hl₄, hl₅, hl₆]
  simp

/-- The digits of an ordinal: digits of ASCII that write a number below 2³². -/
structure OrdinalDigits (digits : Text) : Prop where
  ascii : Row Char.isDigit digits
  fits : Nat.ofDigitChars 10 digits 0 < 2 ^ 32

theorem number?_eq {digits : Text} (ne : digits ≠ []) : number? digits =
    if digits.all Char.isDigit then some (Nat.ofDigitChars 10 digits 0) else none := by
  cases digits with
  | nil => exact absurd rfl ne
  | cons c digits => rfl

/-- An ordinal is read from its digits, and from no other row of characters. -/
theorem ordinal?_cases {digits : Text} (ne : digits ≠ []) :
    OrdinalDigits digits ∧ ordinal? digits = some (Nat.ofDigitChars 10 digits 0) ∨
      ¬OrdinalDigits digits ∧ ordinal? digits = none := by
  have size : UInt32.size = 2 ^ 32 := rfl
  rw [ordinal?, number?_eq ne, size]
  by_cases ascii : digits.all Char.isDigit = true
  · rw [if_pos ascii]
    by_cases fits : Nat.ofDigitChars 10 digits 0 < 2 ^ 32
    · exact .inl ⟨⟨⟨ne, List.all_eq_true.1 ascii⟩, fits⟩, if_pos fits⟩
    · exact .inr ⟨fun h => fits h.fits, if_neg fits⟩
  · rw [if_neg ascii]
    exact .inr ⟨fun h => ascii (List.all_eq_true.2 h.ascii.2), rfl⟩

theorem fieldName?_append {name rest : Text} (h : FieldName name)
    (stop : ∀ c, rest.head? = some c → isFieldRest c = false) :
    fieldName? (name ++ rest) = some (name, rest) := by
  obtain ⟨c, more, rfl, hc, inside⟩ := h
  rw [List.cons_append, fieldName?, if_pos hc, takeWhile_append_stop inside stop,
    dropWhile_append_stop inside stop]

/-- A line that is put together from the parts of a declaration declares the field, unless its
digits are not those of an ordinal. -/
theorem fieldDeclaration?_append {type sep name before after digits gap rest : Text}
    (htype : Row isTypeName type) (hsep : Row isBlank sep) (hname : FieldName name)
    (hbefore : Blank before) (hafter : Blank after) (hdigits : Row isDecimalDigit digits)
    (hgap : Blank gap) :
    fieldDeclaration? (type ++ (sep ++ (name ++ (before ++ '=' :: (after ++ (digits ++ (gap ++
      ';' :: rest))))))) = (ordinal? digits).map fun n => ⟨type, name, n⟩ := by
  have line := row?_append_row htype hsep (fun _ => isTypeName_eq_false_of_isBlank)
    (name ++ (before ++ '=' :: (after ++ (digits ++ (gap ++ ';' :: rest)))))
  have separator := row?_append_row hsep hname.row (fun _ => isBlank_eq_false_of_isWord)
    (before ++ '=' :: (after ++ (digits ++ (gap ++ ';' :: rest))))
  have stopName := eq_false_of_head?_append_cons (m := '=')
    (fun _ h => isBlank_eq_false_of_isWord (isWord_of_isFieldRest h)) hbefore (by decide)
    (after ++ (digits ++ (gap ++ ';' :: rest)))
  have stopDigits := eq_false_of_head?_append_cons (m := ';')
    (fun _ => isBlank_eq_false_of_isDecimalDigit) hgap (by decide) rest
  have equals := trimStart_append_cons hbefore (c := '=') (by decide)
    (after ++ (digits ++ (gap ++ ';' :: rest)))
  have semicolon := trimStart_append_cons hgap (c := ';') (by decide) rest
  have ordinal : trimStart (after ++ (digits ++ (gap ++ ';' :: rest))) =
      digits ++ (gap ++ ';' :: rest) := by
    rw [trimStart_append_of_blank hafter]
    exact trimStart_eq_self fun c hc => isBlank_eq_false_of_isDecimalDigit (hdigits.head? hc)
  simp only [fieldDeclaration?, bind, line, separator, fieldName?_append hname stopName, equals,
    after?, ordinal, row?_append hdigits stopDigits, semicolon, Option.bind_some, if_true]
  cases ordinal? digits <;> rfl

end LazyFields.Schema
