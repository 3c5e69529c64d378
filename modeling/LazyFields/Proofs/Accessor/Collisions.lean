import LazyFields.Proofs.Accessor.Letters

/-!
# Fields that share an accessor

A call of an accessor reads every field whose accessor has this name.  Two fields share one exactly
when their names are the same but for the underscores and each of their letters begins a part in
both names or in neither.  A digit has no case, so it may begin a part in one name only; empty
parts, from underscores at the ends or in a row, are lost.
-/
namespace LazyFields
open Text Schema

/-- Letters are spelled alike exactly when they are the same and, unless they are digits, both begin
a part or neither does. -/
theorem inCase_eq_iff {c c' : Char} {b b' : Bool} (h : FieldLetter c) (h' : FieldLetter c') :
    inCase (c, b) = inCase (c', b') ↔ c = c' ∧ (c.isAlpha = true → b = b') := by
  have back : ∀ {d : Char} {e : Bool}, FieldLetter d → (inCase (d, e)).toLower = d := by
    intro d e hd
    cases e with
    | false => exact hd.lower
    | true => exact hd.lower_upper
  constructor
  · intro same
    have lower := congrArg Char.toLower same
    rw [back h, back h'] at lower
    subst lower
    refine ⟨rfl, fun alpha => ?_⟩
    have apart : c.toUpper ≠ c := fun eq => by
      rw [h.upper_eq_iff, alpha] at eq
      contradiction
    cases b with
    | false => cases b' with
      | false => rfl
      | true => exact absurd same.symm apart
    | true => cases b' with
      | false => exact absurd same apart
      | true => rfl
  · rintro ⟨rfl, alike⟩
    cases alpha : c.isAlpha with
    | true => rw [alike alpha]
    | false => cases b <;> cases b' <;> simp [inCase, h.upper_eq_iff.2 alpha]

theorem map_inCase_eq_iff {letter letter' : Option (Char × Bool)}
    (h : ∀ l, letter = some l → FieldLetter l.1) (h' : ∀ l, letter' = some l → FieldLetter l.1) :
    letter.map inCase = letter'.map inCase ↔ letter.map Prod.fst = letter'.map Prod.fst ∧
      ∀ c, letter.map Prod.fst = some c → c.isAlpha = true →
        ((∃ d, letter = some (d, true)) ↔ ∃ d, letter' = some (d, true)) := by
  cases letter with
  | none => cases letter' with
    | none => simp
    | some letter' => simp
  | some letter => cases letter' with
    | none => simp
    | some letter' =>
      obtain ⟨c, b⟩ := letter
      obtain ⟨c', b'⟩ := letter'
      simp [inCase_eq_iff (h _ rfl) (h' _ rfl)]

/-- The letters at one place of two field names, underscores not counted, are spelled alike exactly
when they are the same and begin a part in both names or in neither, unless they are digits. -/
theorem getElem?_inCase_eq_iff {x y : Text} (hx : FieldName x) (hy : FieldName y) (i : Nat) :
    (letters true x)[i]?.map inCase = (letters true y)[i]?.map inCase ↔
      (bare x)[i]? = (bare y)[i]? ∧ ∀ c, (bare x)[i]? = some c → c.isAlpha = true →
        (BeginsPart x i ↔ BeginsPart y i) := by
  rw [map_inCase_eq_iff (fun _ hl => fieldLetter_of_mem hx (List.mem_of_getElem? hl))
    (fun _ hl => fieldLetter_of_mem hy (List.mem_of_getElem? hl)), beginsPart_iff, beginsPart_iff,
    ← map_fst_letters true x, ← map_fst_letters true y, List.getElem?_map, List.getElem?_map]

theorem flatMap_lowerCase_accessorName {name : Text} (h : FieldName name) :
    (accessorName name).flatMap lowerCase = bare name := by
  have back : ∀ letter ∈ letters true name, lowerCase (inCase letter) = [letter.1] := by
    rintro ⟨c, b⟩ hmem
    have hc : FieldLetter c := fieldLetter_of_mem h hmem
    cases b with
    | false => simp [inCase, lowerCase, hc.ascii, hc.lower]
    | true => simp [inCase, lowerCase, hc.upper_ascii, hc.lower_upper]
  rw [accessorName_eq_map h, List.flatMap_map, List.flatMap_congr back, ← List.map_eq_flatMap,
    map_fst_letters]

theorem not_mem_accessorName {name : Text} (h : FieldName name) : '_' ∉ accessorName name := by
  rw [accessorName_eq_map h, List.mem_map]
  rintro ⟨⟨c, b⟩, hmem, eq⟩
  cases b with
  | false =>
    have inside : c ∈ bare name := by
      rw [← map_fst_letters true name]
      exact List.mem_map_of_mem hmem
    obtain rfl : c = '_' := eq
    simp [bare] at inside
  | true => exact (fieldLetter_of_mem h hmem).upper_ne eq

/-- Two fields share an accessor exactly when their names are the same but for the underscores and
each letter begins a part in both names or in neither.  An accessor name holds no underscore, and
lower case leads from it back to the field name without underscores. -/
theorem accessorName_eq_iff {x y : Text} (hx : FieldName x) (hy : FieldName y) :
    (accessorName x = accessorName y ↔ bare x = bare y ∧
      ∀ i c, (bare x)[i]? = some c → c.isAlpha = true → (BeginsPart x i ↔ BeginsPart y i)) ∧
    '_' ∉ accessorName x ∧ (accessorName x).flatMap lowerCase = bare x := by
  refine ⟨?_, not_mem_accessorName hx, flatMap_lowerCase_accessorName hx⟩
  have same : bare x = bare y ↔ ∀ i : Nat, (bare x)[i]? = (bare y)[i]? := List.ext_getElem?_iff
  rw [accessorName_eq_map hx, accessorName_eq_map hy, List.ext_getElem?_iff, same, ← forall_and]
  exact forall_congr' fun i => by
    rw [List.getElem?_map, List.getElem?_map, getElem?_inCase_eq_iff hx hy i]

def digitEnds : Text := "_s2_cell".toList

/-- The name with the digit in a part of its own, and with an empty part. -/
def digitAlone : Text := "s_2__cell".toList

def digitBegins : Text := "s_2cell".toList

/-- The first two names share an accessor, the third one has another: its `c` begins no part. -/
theorem shared_of_digitEnds :
    FieldName digitEnds ∧ FieldName digitAlone ∧ FieldName digitBegins ∧
    accessorName digitEnds = accessorName digitAlone ∧
    (BeginsPart digitEnds 2 ↔ BeginsPart digitAlone 2) ∧
    (accessorName digitEnds).flatMap lowerCase = bare digitEnds ∧
    bare digitAlone = bare digitBegins ∧
    ¬∀ i c, (bare digitAlone)[i]? = some c → c.isAlpha = true →
      (BeginsPart digitAlone i ↔ BeginsPart digitBegins i) := by
  have hends : FieldName digitEnds := by decide
  have halone : FieldName digitAlone := by decide
  have hbegins : FieldName digitBegins := by decide
  have shared : accessorName digitEnds = accessorName digitAlone := by decide +kernel
  have other : accessorName digitAlone ≠ accessorName digitBegins := by decide +kernel
  have same : bare digitAlone = bare digitBegins := by decide
  obtain ⟨alike, -, back⟩ := accessorName_eq_iff hends halone
  obtain ⟨differ, -⟩ := accessorName_eq_iff halone hbegins
  exact ⟨hends, halone, hbegins, shared, (alike.1 shared).2 2 'c' (by decide) (by decide), back,
    same, fun begins => other (differ.2 ⟨same, begins⟩)⟩

end LazyFields
