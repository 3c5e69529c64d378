import LazyFields.Proofs.Accessor
import LazyFields.Proofs.Text.Lines

/-!
# The letters of accessor names

An accessor name spells the characters of a field name but for the underscores: in upper case those
that begin a part, that is, stand at the start of the name or right behind an underscore, and in
lower case the others.
-/
namespace LazyFields
open Text Schema

def bare (name : Text) : Text := name.filter (· != '_')

/-- The characters of a name but for the underscores, each with whether it begins a part, where
`first` says so of a character at the start. -/
def letters (first : Bool) : Text → List (Char × Bool)
  | [] => []
  | c :: t => if c = '_' then letters true t else (c, first) :: letters false t

def spelled (letter : Char × Bool) : Text :=
  if letter.2 then upperCase letter.1 else lowerCase letter.1

/-- The parts of a name between its underscores spell its letters.  Within the first part, nothing
but what stands before the name says whether its first character begins it. -/
theorem flatMap_spelled {t part : Text} {parts : List Text} (h : splitOn '_' t = part :: parts) :
    (letters true t).flatMap spelled = capitalise part ++ parts.flatMap capitalise ∧
      (letters false t).flatMap spelled = part.flatMap lowerCase ++ parts.flatMap capitalise := by
  induction t generalizing part parts with
  | nil =>
    obtain ⟨rfl, rfl⟩ := List.cons.inj h
    exact ⟨rfl, rfl⟩
  | cons c t ih =>
    obtain ⟨next, more, hsplit⟩ := List.exists_cons_of_ne_nil (splitOn_ne_nil '_' t)
    obtain ⟨upper, lower⟩ := ih hsplit
    by_cases hc : c = '_'
    · subst hc
      have divided : splitOn '_' ('_' :: t) = [] :: splitOn '_' t := rfl
      rw [divided, hsplit] at h
      obtain ⟨rfl, rfl⟩ := List.cons.inj h
      simp [letters, upper, capitalise]
    · have divided : splitOn '_' (c :: t) = (c :: next) :: more := by
        simp only [splitOn, List.foldr_cons, if_neg hc] at hsplit ⊢
        rw [hsplit]
      rw [divided] at h
      obtain ⟨rfl, rfl⟩ := List.cons.inj h
      simp [letters, hc, lower, spelled, capitalise]

theorem accessorName_eq_flatMap (name : Text) :
    accessorName name = (letters true name).flatMap spelled := by
  obtain ⟨part, parts, hsplit⟩ := List.exists_cons_of_ne_nil (splitOn_ne_nil '_' name)
  rw [accessorName, hsplit, List.flatMap_cons, (flatMap_spelled hsplit).1]

theorem map_fst_letters (first : Bool) (name : Text) :
    (letters first name).map Prod.fst = bare name := by
  induction name generalizing first with
  | nil => rfl
  | cons c t ih =>
    by_cases hc : c = '_'
    · simpa [letters, bare, hc] using ih true
    · simpa [letters, bare, hc] using ih false

/-- Character `i` of the name, underscores not counted, begins a part: it stands at the start of the
name or right behind an underscore. -/
def BeginsPart (name : Text) (i : Nat) : Prop :=
  ∃ front c rest, name = front ++ c :: rest ∧ c ≠ '_' ∧ (bare front).length = i ∧
    ∀ last, front.getLast? = some last → last = '_'

/-- Whether a character begins a part when it stands behind `front`, where `first` says so of a
character at the start. -/
def opensPart (first : Bool) (front : Text) : Bool := front.foldl (fun _ c => c == '_') first

theorem opensPart_eq_true_iff {front : Text} :
    opensPart true front = true ↔ ∀ last, front.getLast? = some last → last = '_' := by
  rcases List.eq_nil_or_concat front with rfl | ⟨front, last, rfl⟩
  · simp [opensPart]
  · simp [opensPart]

theorem exists_cons_eq_append {d c : Char} {t : Text} {P : Text → Prop} :
    (∃ front rest, d :: t = front ++ c :: rest ∧ P front) ↔
      d = c ∧ P [] ∨ ∃ front rest, t = front ++ c :: rest ∧ P (d :: front) := by
  constructor
  · rintro ⟨front, rest, h, hP⟩
    cases front with
    | nil => exact .inl ⟨(List.cons.inj h).1, hP⟩
    | cons e front =>
      obtain ⟨rfl, behind⟩ := List.cons.inj h
      exact .inr ⟨front, rest, behind, hP⟩
  · rintro (⟨rfl, hP⟩ | ⟨front, rest, rfl, hP⟩)
    · exact ⟨[], t, rfl, hP⟩
    · exact ⟨d :: front, rest, rfl, hP⟩

theorem getElem?_letters_iff {first : Bool} {name : Text} {i : Nat} {c : Char} {b : Bool} :
    (letters first name)[i]? = some (c, b) ↔ ∃ front rest, name = front ++ c :: rest ∧ c ≠ '_' ∧
      (bare front).length = i ∧ opensPart first front = b := by
  induction name generalizing first i with
  | nil => simp [letters]
  | cons d t ih =>
    rw [exists_cons_eq_append]
    by_cases hd : d = '_'
    · subst hd
      have behind : letters first ('_' :: t) = letters true t := rfl
      rw [behind, ih, or_iff_right]
      · rfl
      · rintro ⟨rfl, ne, -⟩
        exact ne rfl
    · have ahead : letters first (d :: t) = (d, first) :: letters false t := if_neg hd
      rw [ahead]
      cases i with
      | zero =>
        rw [or_iff_left]
        · have start : bare [] = [] ∧ opensPart first [] = first := ⟨rfl, rfl⟩
          simp only [List.getElem?_cons_zero, Option.some.injEq, Prod.mk.injEq, start,
            List.length_nil, true_and]
          constructor
          · rintro ⟨rfl, rfl⟩
            exact ⟨rfl, hd, rfl⟩
          · rintro ⟨rfl, -, rfl⟩
            exact ⟨rfl, rfl⟩
        · simp [bare, hd]
      | succ i =>
        rw [or_iff_right, List.getElem?_cons_succ, ih]
        · simp [bare, hd, opensPart, beq_eq_false_iff_ne.2 hd]
        · simp [bare]

theorem beginsPart_iff {name : Text} {i : Nat} :
    BeginsPart name i ↔ ∃ c, (letters true name)[i]? = some (c, true) := by
  simp only [getElem?_letters_iff, opensPart_eq_true_iff, BeginsPart]
  constructor
  · rintro ⟨front, c, rest, parts⟩
    exact ⟨c, front, rest, parts⟩
  · rintro ⟨c, front, rest, parts⟩
    exact ⟨front, c, rest, parts⟩

/-- A character that a field name can have besides underscores: a lower-case letter or a digit of
ASCII.  Only a letter has an upper case of its own, and lower case leads back to it. -/
structure FieldLetter (c : Char) : Prop where
  ascii : c.toNat < 0x80
  lower : c.toLower = c
  upper_ascii : c.toUpper.toNat < 0x80
  lower_upper : c.toUpper.toLower = c
  upper_ne : c.toUpper ≠ '_'
  isUpper_upper : c.toUpper.isUpper = c.isAlpha
  upper_eq_iff : c.toUpper = c ↔ c.isAlpha = false

theorem fieldLetter_of_isFieldRest {c : Char} (h : isFieldRest c = true) (hc : c ≠ '_') :
    FieldLetter c := by
  have lower : ∀ n < 0x80, isFieldRest (Char.ofNat n) = true → Char.ofNat n ≠ '_' →
      (Char.ofNat n).toLower = Char.ofNat n ∧ (Char.ofNat n).toUpper.toLower = Char.ofNat n := by
    decide
  have upper : ∀ n < 0x80, isFieldRest (Char.ofNat n) = true → Char.ofNat n ≠ '_' →
      (Char.ofNat n).toUpper.toNat < 0x80 ∧ (Char.ofNat n).toUpper ≠ '_' ∧
        (Char.ofNat n).toUpper.isUpper = (Char.ofNat n).isAlpha := by
    decide
  have fixed : ∀ n < 0x80, isFieldRest (Char.ofNat n) = true →
      ((Char.ofNat n).toUpper = Char.ofNat n ↔ (Char.ofNat n).isAlpha = false) := by
    decide
  have below := lt_of_isWord (isWord_of_isFieldRest h)
  have lower := lower c.toNat below
  have upper := upper c.toNat below
  have fixed := fixed c.toNat below
  rw [Char.ofNat_toNat] at lower upper fixed
  obtain ⟨lower, lowerUpper⟩ := lower h hc
  obtain ⟨upperAscii, upperNe, isUpper⟩ := upper h hc
  exact ⟨below, lower, upperAscii, lowerUpper, upperNe, isUpper, fixed h⟩

theorem fieldLetter_of_mem {name : Text} (h : FieldName name) {first : Bool} {letter : Char × Bool}
    (hmem : letter ∈ letters first name) : FieldLetter letter.1 := by
  have inside : letter.1 ∈ bare name := by
    rw [← map_fst_letters first name]
    exact List.mem_map_of_mem hmem
  obtain ⟨hc, ne⟩ := List.mem_filter.1 inside
  obtain ⟨c, rest, rfl, start, more⟩ := h
  apply fieldLetter_of_isFieldRest _ (by simpa using ne)
  rcases List.mem_cons.1 hc with heq | hc
  · rw [heq, isFieldRest, start, Bool.true_or]
  · exact more _ hc

def inCase (letter : Char × Bool) : Char := if letter.2 then letter.1.toUpper else letter.1

theorem spelled_eq {letter : Char × Bool} (h : FieldLetter letter.1) :
    spelled letter = [inCase letter] := by
  obtain ⟨c, b⟩ := letter
  cases b with
  | false => simp [spelled, inCase, lowerCase, h.ascii, h.lower]
  | true => simp [spelled, inCase, upperCase, h.ascii]

theorem accessorName_eq_map {name : Text} (h : FieldName name) :
    accessorName name = (letters true name).map inCase := by
  rw [accessorName_eq_flatMap, List.map_eq_flatMap]
  exact List.flatMap_congr fun letter hmem => spelled_eq (fieldLetter_of_mem h hmem)

end LazyFields
