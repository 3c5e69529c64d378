import LazyFields.Proofs.Accessor.Letters
import LazyFields.Proofs.Annotation.Unread

/-!
# Fields whose accessor can be seen

An accessor is searched for by its upper-case first letter.  A field name has such an accessor when
the first of its characters but for the underscores is a letter: a call of the accessor then adds
its name and nothing else, and the field counts as used.  Where that character is a digit, or there
is none, no source can call the accessor so that it is seen, and the field of a used message is a
candidate whatever the sources say.
-/
namespace LazyFields
open Text Schema

def LetterFirst (name : Text) : Prop := ∃ c ∈ (bare name).head?, c.isAlpha = true

instance : DecidablePred LetterFirst := fun name =>
  decidable_of_iff ((bare name).head?.any Char.isAlpha = true) (Option.any_eq_true ..)

theorem head?_letters (name : Text) :
    (letters true name).head? = (bare name).head?.map fun c => (c, true) := by
  induction name with
  | nil => rfl
  | cons c t ih =>
    by_cases hc : c = '_'
    · simpa [letters, bare, hc] using ih
    · simp [letters, bare, hc]

section Call
variable {qualifier : Text} {rules : NamingRules} {field : Text}

theorem head?_accessorName (h : FieldName field) :
    (accessorName field).head? = (bare field).head?.map Char.toUpper := by
  rw [accessorName_eq_map h, List.head?_map, head?_letters, Option.map_map]
  rfl

theorem isUpper_toUpper (h : FieldName field) {c : Char} (hc : (bare field).head? = some c) :
    c.toUpper.isUpper = c.isAlpha := by
  have first : (letters true field).head? = some (c, true) := by rw [head?_letters, hc]; rfl
  exact (fieldLetter_of_mem h (List.mem_of_mem_head? first)).isUpper_upper

/-- The accessor of a field can be searched for exactly when the field name has a letter first. -/
theorem exported_accessorName_iff (h : FieldName field) :
    Exported (accessorName field) ↔ LetterFirst field := by
  constructor
  · rintro ⟨d, rest, hname, upper, -⟩
    have first : some d = (bare field).head?.map Char.toUpper := by
      rw [← head?_accessorName h, hname, List.head?_cons]
    obtain ⟨c, hc, rfl⟩ := Option.map_eq_some_iff.1 first.symm
    exact ⟨c, hc, (isUpper_toUpper h hc).symm.trans upper⟩
  · rintro ⟨c, hc, alpha⟩
    have first : (accessorName field).head? = some c.toUpper := by
      rw [head?_accessorName h, hc, Option.map_some]
    exact exported_accessorName h first ((isUpper_toUpper h hc).trans alpha)

/-- In the call of an accessor by itself nothing is found but this accessor. -/
theorem mem_accessorCalls_call (h : FieldName field) {n : Text} :
    n ∈ accessorCalls (accessorCall (accessorName field)) ↔
      n = accessorName field ∧ LetterFirst field := by
  rw [mem_accessorCalls_iff, ← exported_accessorName_iff h]
  constructor
  · rintro ⟨exported, inside⟩
    have word : ∀ c ∈ accessorName field, isWord c = true := fun _ hc =>
      isWord_of_mem_accessorName h.row.2 hc
    obtain rfl := eq_of_accessorCall_infix exported.row.2 word inside
    exact ⟨rfl, exported⟩
  · rintro ⟨rfl, exported⟩
    exact ⟨exported, List.infix_refl _⟩

theorem mem_add_call (h : FieldName field) {u : Usage} {n : Text} :
    n ∈ (u.add qualifier rules (accessorCall (accessorName field))).accessors ↔
      n ∈ u.accessors ∨ n = accessorName field ∧ LetterFirst field := by
  rw [Usage.add, NameSet.mem_foldl_insert, mem_accessorCalls_call h]

end Call

theorem used_of_mem_decisions {types accessors : NameSet} {model : Model} {d : Decision}
    (h : d ∈ decisions types model accessors) :
    d.used = decide (accessorName d.field ∈ accessors) := by
  obtain ⟨m, -, -, fields, -, g, -, rfl⟩ := mem_decisions.1 h
  rfl

/-- The call of its accessor makes a field a used one: the call adds exactly this accessor, and
every decision on a field of this name is that it is used. -/
structure Reached (qualifier : Text) (rules : NamingRules) (field : Text) : Prop where
  added : ∀ u : Usage, (u.add qualifier rules (accessorCall (accessorName field))).accessors =
    u.accessors.insert (accessorName field)
  used : ∀ (u : Usage) (types : NameSet) (model : Model), ∀ d ∈ decisions types model
    (u.add qualifier rules (accessorCall (accessorName field))).accessors,
    d.field = field → d.used = true

/-- No source makes a field a used one: the call of its accessor adds nothing, and whatever the
sources are, the field is selected in each used message that the schema stores with it. -/
structure OutOfReach (qualifier : Text) (rules : NamingRules) (field : Text) : Prop where
  unseen : ∀ u : Usage, (u.add qualifier rules (accessorCall (accessorName field))).accessors =
    u.accessors
  selected : ∀ (sources : List Text) (types : NameSet) (model : Model) (m : Text)
    (fields : List Field), m ∈ types → m ∉ model.enums → model.fields? m = some fields →
      field ∈ fields.map Field.name →
        (m, field) ∈ select types model (Usage.ofSources qualifier rules sources).accessors

section Reach
variable {qualifier : Text} {rules : NamingRules} {field : Text}

theorem reached_of_letterFirst (h : FieldName field) (letter : LetterFirst field) :
    Reached qualifier rules field := by
  have added : ∀ u : Usage, (u.add qualifier rules (accessorCall (accessorName field))).accessors =
      u.accessors.insert (accessorName field) := fun u => NameSet.ext_mem fun n => by
    rw [mem_add_call h, NameSet.mem_insert, and_iff_left letter, or_comm]
  refine ⟨added, ?_⟩
  rintro u types model d hd rfl
  rw [used_of_mem_decisions hd, added]
  exact decide_eq_true (NameSet.mem_insert.2 (.inl rfl))

theorem outOfReach_of_not_letterFirst (h : FieldName field) (letter : ¬LetterFirst field) :
    OutOfReach qualifier rules field := by
  constructor
  · intro u
    refine NameSet.ext_mem fun n => ?_
    rw [mem_add_call h, or_iff_left fun own => letter own.2]
  · intro sources types model m fields hused noEnum hfields hfield
    obtain ⟨g, hg, hname⟩ := List.mem_map.1 hfield
    refine mem_select_iff.2 ⟨hused, noEnum, ⟨fields, hfields, g, hg, hname⟩, fun called => ?_⟩
    obtain ⟨source, -, call⟩ := mem_ofSources_accessors.1 called
    exact letter ((exported_accessorName_iff h).1 (mem_accessorCalls_iff.1 call).1)

theorem Reached.not_outOfReach (h : Reached qualifier rules field) :
    ¬OutOfReach qualifier rules field := fun out => by
  have found : accessorName field ∈ (∅ : NameSet).insert (accessorName field) :=
    NameSet.mem_insert.2 (.inl rfl)
  rw [← h.added {}, out.unseen {}] at found
  exact NameSet.mem_empty found

end Reach

/-- A source reaches exactly the fields whose name has a letter first, underscores apart; every
other field is out of reach of all sources. -/
theorem reached_iff_letterFirst (qualifier : Text) (rules : NamingRules) {field : Text}
    (h : FieldName field) : (Reached qualifier rules field ↔ LetterFirst field) ∧
      (OutOfReach qualifier rules field ↔ ¬LetterFirst field) := by
  refine ⟨⟨fun reached => ?_, reached_of_letterFirst h⟩,
    ⟨fun out letter => (reached_of_letterFirst h letter).not_outOfReach out,
      outOfReach_of_not_letterFirst h⟩⟩
  by_contra letter
  exact reached.not_outOfReach (outOfReach_of_not_letterFirst h letter)

def digitField : Text := "_1".toList

/-- A name with a digit behind its first letter. -/
def letterField : Text := "_a1".toList

/-- The accessor of the second name can be seen, the one of the first cannot. -/
theorem reached_letterField :
    FieldName letterField ∧ Reached Config.defaultQualifier ({} : NamingConfig).rules letterField ∧
    FieldName digitField ∧
      OutOfReach Config.defaultQualifier ({} : NamingConfig).rules digitField := by
  have hletter : FieldName letterField := by decide
  have hdigit : FieldName digitField := by decide
  exact ⟨hletter, (reached_iff_letterFirst _ _ hletter).1.2 (by decide), hdigit,
    (reached_iff_letterFirst _ _ hdigit).2.2 (by decide)⟩

def digitMessage : Text := "message AProto \x7b\n  BProto _1 = 1;\n\x7d\n".toList

def digitCall : Text := "func f(x *pogo.AProto) \x7b x.Get1() \x7d".toList

/-- Not every field is reached: the source calls the accessor of the field, and the field is
decided upon as one that is not used. -/
theorem not_reached_digitField :
    (∃ d ∈ decisions (Usage.ofSources Config.defaultQualifier ({} : NamingConfig).rules
        [digitCall]).types (Model.read digitMessage ({} : NamingConfig).rules)
        (Usage.ofSources Config.defaultQualifier ({} : NamingConfig).rules [digitCall]).accessors,
      d.field = digitField ∧ d.used = false) ∧
    accessorCall (accessorName digitField) <:+: digitCall ∧
    ¬∀ field, FieldName field →
      Reached Config.defaultQualifier ({} : NamingConfig).rules field := by
  refine ⟨by decide +kernel, by decide +kernel, fun reached => ?_⟩
  have added := (reached digitField (by decide)).added {}
  exact absurd added (by decide +kernel)

end LazyFields
