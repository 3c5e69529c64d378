import LazyFields.Config.Basic
import LazyFields.Proofs.Schema.Tokens
import LazyFields.Usage

/-!
# What sources are found to use

An accessor is found exactly when its call stands somewhere in a source, and a type that is found
stands there behind the qualifier and a point, as long an identifier as can be read.  The search
goes on behind what it has read, so what begins inside a reading is not looked at: a call cannot
reach into another call, and a reference cannot reach into one whose qualifier is told apart from
names.  Sources add up: what is found in a list of them is found in one of them.
-/
namespace LazyFields
open Text Schema

/-- An identifier that begins with an upper-case letter of ASCII. -/
def Exported (name : Text) : Prop :=
  ∃ c rest, name = c :: rest ∧ c.isUpper = true ∧ ∀ d ∈ rest, isWord d = true

/-- The source names the type behind the qualifier and a point, and no further character of an
identifier follows. -/
def NamesType (qualifier name source : Text) : Prop :=
  ∃ front rest, source = front ++ (qualifier ++ ['.'] ++ (name ++ rest)) ∧ Exported name ∧
    ∀ c, rest.head? = some c → isWord c = false

theorem exportedName?_eq_some_iff {t name rest : Text} :
    exportedName? t = some (name, rest) ↔ t = name ++ rest ∧ Exported name ∧
      ∀ c, rest.head? = some c → isWord c = false := by
  constructor
  · intro h
    cases t with
    | nil => simp [exportedName?] at h
    | cons c t =>
      simp only [exportedName?, Option.ite_none_right_eq_some, Option.some.injEq,
        Prod.mk.injEq] at h
      obtain ⟨hc, rfl, rfl⟩ := h
      refine ⟨by simp, ⟨c, _, rfl, hc, fun d hd => ?_⟩, fun d hd => ?_⟩
      · exact List.mem_takeWhile_imp hd
      · exact head?_dropWhile_stop hd
  · rintro ⟨rfl, ⟨c, row, rfl, hc, inside⟩, stop⟩
    have take := takeWhile_append_stop inside stop
    have drop := dropWhile_append_stop inside stop
    simp [exportedName?, hc, take, drop]

theorem accessorHere?_eq_some_iff {t name : Text} :
    accessorHere? t = some name ↔ Exported name ∧ accessorCall name <+: t := by
  constructor
  · intro h
    simp only [accessorHere?, bind, Option.bind_eq_some_iff, Prod.exists] at h
    obtain ⟨t₁, h₁, name', t₂, h₂, t₃, h₃, hname⟩ := h
    obtain rfl : name' = name := Option.some.inj hname
    obtain ⟨ht₁, exported, -⟩ := exportedName?_eq_some_iff.1 h₂
    refine ⟨exported, t₃, ?_⟩
    rw [after?_eq_some_iff.1 h₁, ht₁, after?_eq_some_iff.1 h₃, accessorCall]
    simp
  · rintro ⟨exported, rest, rfl⟩
    have split : accessorCall name ++ rest =
        ".Get".toList ++ (name ++ ("()".toList ++ rest)) := by simp [accessorCall]
    have stop : ∀ c, ("()".toList ++ rest).head? = some c → isWord c = false := by
      intro c hc
      obtain rfl : '(' = c := by simpa using hc
      decide
    have read := exportedName?_eq_some_iff.2 ⟨rfl, exported, stop⟩
    rw [split, accessorHere?, after?_eq_some_iff.2 rfl]
    simp only [bind, Option.bind_some, read, after?_eq_some_iff.2 rfl]
    rfl

/-- A place of the text can be searched: no reading that begins before it reaches beyond it. -/
def Reader.Clear (r : Reader) (front place : Text) : Prop :=
  ∀ before n, before ≠ [] → before <:+ front → r.read? (before ++ place) = some n →
    (r.written n).length ≤ before.length

section Search
variable {r : Reader} {name : Text}

/-- What a search gives, the reader gives at some place of the text. -/
theorem exists_of_mem_searchFrom {t : Text} {skip : Nat} (h : name ∈ r.searchFrom skip t) :
    ∃ front place, t = front ++ place ∧ r.read? place = some name := by
  induction t generalizing skip with
  | nil => simp [Reader.searchFrom] at h
  | cons c t ih =>
    have later : ∀ {skip}, name ∈ r.searchFrom skip t →
        ∃ front place, c :: t = front ++ place ∧ r.read? place = some name := by
      intro skip h
      obtain ⟨front, place, rfl, found⟩ := ih h
      exact ⟨c :: front, place, rfl, found⟩
    unfold Reader.searchFrom at h
    split at h
    · exact later h
    · split at h
      · rename_i first hfirst
        rcases List.mem_cons.1 h with rfl | h
        · exact ⟨[], c :: t, rfl, hfirst⟩
        · exact later h
      · exact later h

/-- What the reader gives at a place, a search gives, when no reading from before the place reaches
beyond it. -/
theorem mem_searchFrom {front place : Text} (inhabited : place ≠ [])
    (found : r.read? place = some name) (clear : r.Clear front place) {skip : Nat}
    (reach : skip ≤ front.length) : name ∈ r.searchFrom skip (front ++ place) := by
  induction front generalizing skip with
  | nil =>
    obtain rfl : skip = 0 := Nat.le_zero.1 reach
    cases place with
    | nil => exact absurd rfl inhabited
    | cons c t => simp [Reader.searchFrom, found]
  | cons c front ih =>
    have rest : r.Clear front place := fun before n ne suffix =>
      clear before n ne (suffix.trans (List.suffix_cons c front))
    rw [List.length_cons] at reach
    cases skip with
    | succ skip => exact ih rest (Nat.le_of_succ_le_succ reach)
    | zero =>
      rw [List.cons_append, Reader.searchFrom]
      split
      · rename_i n hn
        -- the search goes on behind this reading, which ends before the place
        have stop := clear (c :: front) n (by simp) (List.suffix_refl _) hn
        rw [List.length_cons] at stop
        exact List.mem_cons_of_mem _ (ih rest (by omega))
      · exact ih rest (Nat.zero_le _)

end Search

/-- A text at the start of another that reaches beyond a part of it runs on behind that part. -/
theorem exists_of_prefix_append {written before place : Text} (h : written <+: before ++ place)
    (beyond : before.length < written.length) :
    ∃ rest, written = before ++ rest ∧ rest ≠ [] ∧ rest <+: place := by
  obtain ⟨rest, rfl⟩ := List.prefix_of_prefix_length_le (List.prefix_append _ _) h beyond.le
  refine ⟨rest, rfl, ?_, (List.prefix_append_right_inj before).1 h⟩
  rintro rfl
  simp at beyond

theorem Exported.ne_nil {name : Text} (h : Exported name) : name ≠ [] := by
  obtain ⟨c, rest, rfl, -⟩ := h
  simp

theorem isWord_of_isUpper {c : Char} (h : c.isUpper = true) : isWord c = true := by
  simp [isWord, Char.isAlphanum, Char.isAlpha, h]

theorem Exported.row {name : Text} (h : Exported name) : Row isWord name := by
  obtain ⟨c, rest, rfl, hc, hrest⟩ := h
  refine ⟨by simp, fun d hd => ?_⟩
  rcases List.mem_cons.1 hd with rfl | hd
  · exact isWord_of_isUpper hc
  · exact hrest d hd

theorem eq_of_append_cons_eq {mark : Char} {s t rest more : Text} (hs : mark ∉ s) (ht : mark ∉ t)
    (h : s ++ mark :: rest = t ++ mark :: more) : s = t := by
  have before : ∀ {u tail : Text}, mark ∉ u → (u ++ mark :: tail).takeWhile (· != mark) = u :=
    fun hu => takeWhile_append_stop (bne_of_not_mem hu) (by simp)
  rw [← before hs, h, before ht]

theorem point_not_mem_call {name : Text} (h : ∀ c ∈ name, isWord c = true) :
    '.' ∉ "Get".toList ++ (name ++ "()".toList) := by
  simp only [List.mem_append, not_or]
  exact ⟨by decide, not_mem_of_class (by decide) h, by decide⟩

theorem eq_of_accessorCall_infix {n name : Text} (hn : ∀ c ∈ n, isWord c = true)
    (hname : ∀ c ∈ name, isWord c = true) (h : accessorCall n <:+: accessorCall name) :
    n = name := by
  obtain ⟨front, rest, call⟩ := h
  cases front with
  | nil =>
    have behind : n ++ '(' :: (')' :: rest) = name ++ '(' :: [')'] := by
      simpa [accessorCall] using call
    exact eq_of_append_cons_eq (not_mem_of_class (by decide) hn)
      (not_mem_of_class (by decide) hname) behind
  | cons c front =>
    have body : "Get".toList ++ (name ++ "()".toList) =
        front ++ ('.' :: ("Get".toList ++ (n ++ "()".toList))) ++ rest :=
      (List.cons.inj call).2.symm
    have point := point_not_mem_call hname
    rw [body] at point
    simp at point

/-- A call cannot reach into another call. -/
theorem clear_accessorCall {name front place : Text} (h : accessorCall name <+: place) :
    Reader.Clear ⟨accessorHere?, accessorCall⟩ front place := by
  intro before n ne _ hn
  obtain ⟨exported, call⟩ := accessorHere?_eq_some_iff.1 hn
  by_contra beyond
  obtain ⟨rest, hcall, hrest, inside⟩ := exists_of_prefix_append call (Nat.lt_of_not_le beyond)
  cases before with
  | nil => exact absurd rfl ne
  | cons c before =>
    cases rest with
    | nil => exact absurd rfl hrest
    | cons d rest =>
      obtain ⟨more, rfl⟩ := h
      obtain rfl : d = '.' := (List.cons_prefix_cons.1 inside).1
      have body : "Get".toList ++ (n ++ "()".toList) = before ++ '.' :: rest :=
        (List.cons.inj hcall).2
      have point := point_not_mem_call exported.row.2
      rw [body] at point
      simp at point

/-- An accessor is found exactly when its call stands in the source. -/
theorem mem_accessorCalls_iff {t name : Text} :
    name ∈ accessorCalls t ↔ Exported name ∧ accessorCall name <:+: t := by
  constructor
  · intro h
    obtain ⟨front, place, rfl, found⟩ := exists_of_mem_searchFrom h
    obtain ⟨exported, call⟩ := accessorHere?_eq_some_iff.1 found
    exact ⟨exported, call.isInfix.trans (List.suffix_append front place).isInfix⟩
  · rintro ⟨exported, front, rest, rfl⟩
    have call : accessorCall name <+: accessorCall name ++ rest := List.prefix_append _ _
    rw [List.append_assoc]
    exact mem_searchFrom (by simp [accessorCall]) (accessorHere?_eq_some_iff.2 ⟨exported, call⟩)
      (clear_accessorCall call) (Nat.zero_le _)

theorem referenceHere?_eq_some_iff {mark t name : Text} :
    referenceHere? mark t = some name ↔ ∃ rest, t = mark ++ (name ++ rest) ∧ Exported name ∧
      ∀ c, rest.head? = some c → isWord c = false := by
  simp only [referenceHere?, bind, Option.bind_eq_some_iff, Prod.exists]
  constructor
  · rintro ⟨t₁, h₁, name', rest, h₂, hname⟩
    obtain rfl : name' = name := Option.some.inj hname
    obtain ⟨rfl, exported, stop⟩ := exportedName?_eq_some_iff.1 h₂
    exact ⟨rest, after?_eq_some_iff.1 h₁, exported, stop⟩
  · rintro ⟨rest, rfl, exported, stop⟩
    exact ⟨_, after?_eq_some_iff.2 rfl, name, rest,
      exportedName?_eq_some_iff.2 ⟨rfl, exported, stop⟩, rfl⟩

theorem namesType_of_mem {qualifier name source : Text}
    (h : name ∈ typeReferences qualifier source) : NamesType qualifier name source := by
  obtain ⟨front, place, rfl, found⟩ := exists_of_mem_searchFrom h
  obtain ⟨rest, rfl, exported, stop⟩ := referenceHere?_eq_some_iff.1 found
  exact ⟨front, rest, rfl, exported, stop⟩

/-- A qualifier that is told apart from the names behind it: it holds no point and begins with no
upper-case letter. -/
structure PlainQualifier (qualifier : Text) : Prop where
  ne_nil : qualifier ≠ []
  pointless : '.' ∉ qualifier
  lower : ∀ c, qualifier.head? = some c → c.isUpper = false

section References
variable {qualifier front rest : Text}

/-- The identifier of an earlier reference ends before a place where the qualifier stands and does
not continue an identifier. -/
theorem length_le_of_exported {n inner : Text} (h : PlainQualifier qualifier)
    (exported : Exported n) (inside : n <+: inner ++ (qualifier ++ '.' :: rest))
    (apart : ∀ c, inner.getLast? = some c → isWord c = false) : n.length ≤ inner.length := by
  by_contra beyond
  obtain ⟨tail, rfl, ne, start⟩ := exists_of_prefix_append inside (Nat.lt_of_not_le beyond)
  by_cases hinner : inner = []
  · -- the identifier would begin with the qualifier, but its first letter is an upper-case one
    subst hinner
    obtain ⟨c, name, hname, upper, -⟩ := exported
    rw [List.nil_append] at hname
    obtain ⟨d, more, hq⟩ := List.exists_cons_of_ne_nil h.ne_nil
    rw [hname, hq] at start
    obtain rfl : c = d := (List.cons_prefix_cons.1 start).1
    have lower : c.isUpper = false := h.lower c (by rw [hq]; rfl)
    exact Bool.noConfusion (upper.symm.trans lower)
  · -- the qualifier would stand behind a character of the identifier
    have last := List.getLast?_eq_some_getLast hinner
    have word := exported.row.2 _ (List.mem_append_left tail (List.getLast_mem hinner))
    exact Bool.noConfusion ((apart _ last).symm.trans word)

theorem clear_typeReference (h : PlainQualifier qualifier)
    (apart : ∀ c, front.getLast? = some c → isWord c = false) :
    Reader.Clear ⟨referenceHere? (qualifier ++ ['.']), fun name => qualifier ++ ['.'] ++ name⟩ front
      (qualifier ++ '.' :: rest) := by
  intro before n ne suffix hn
  obtain ⟨more, reading, exported, -⟩ := referenceHere?_eq_some_iff.1 hn
  have last : before.getLast? = front.getLast? := by
    obtain ⟨start, rfl⟩ := suffix
    exact (List.getLast?_append_of_ne_nil start ne).symm
  have place : qualifier ++ '.' :: (n ++ more) = before ++ (qualifier ++ '.' :: rest) := by
    simpa using reading.symm
  rcases List.append_eq_append_iff.1 place with ⟨mid, rfl, hmid⟩ | ⟨mid, hq, hmid⟩
  · cases mid with
    | nil =>
      obtain ⟨d, tail, hq⟩ := List.exists_cons_of_ne_nil h.ne_nil
      rw [List.nil_append, hq] at hmid
      obtain rfl : '.' = d := (List.cons.inj hmid).1
      exact absurd (hq ▸ List.mem_cons_self) h.pointless
    | cons d inner =>
      have inside : n <+: inner ++ (qualifier ++ '.' :: rest) := ⟨more, (List.cons.inj hmid).2⟩
      have ends : n.length ≤ inner.length := by
        apply length_le_of_exported h exported inside
        intro c hc
        apply apart c
        rw [← last, List.getLast?_append_of_ne_nil _ (by simp), List.getLast?_cons, hc]
        rfl
      simp only [List.length_append, List.length_cons, List.length_nil]
      omega
  · -- both occurrences of the qualifier end at the first point, so they are one
    have noPoint : '.' ∉ mid := fun m => h.pointless (hq ▸ List.mem_append_right before m)
    have same : qualifier = mid := eq_of_append_cons_eq h.pointless noPoint hmid
    rw [← same] at hq
    exact absurd (List.self_eq_append_left.1 hq) ne

/-- A type is found wherever the qualifier stands, not behind a character of an identifier. -/
theorem mem_typeReferences (h : PlainQualifier qualifier)
    (apart : ∀ c, front.getLast? = some c → isWord c = false) {name : Text}
    (exported : Exported name) (stop : ∀ c, rest.head? = some c → isWord c = false) :
    name ∈ typeReferences qualifier (front ++ (qualifier ++ '.' :: (name ++ rest))) := by
  apply mem_searchFrom (by simp) ?_ (clear_typeReference h apart) (Nat.zero_le _)
  exact referenceHere?_eq_some_iff.2 ⟨rest, by simp, exported, stop⟩

end References

section Accumulated
variable {qualifier : Text} {rules : NamingRules} {sources : List Text} {name : Text}

theorem mem_foldl_accessors {u : Usage} :
    name ∈ (sources.foldl (Usage.add qualifier rules) u).accessors ↔
      name ∈ u.accessors ∨ ∃ source ∈ sources, name ∈ accessorCalls source := by
  induction sources generalizing u with
  | nil => simp
  | cons source sources ih =>
    rw [List.foldl_cons, ih, Usage.add, NameSet.mem_foldl_insert, or_assoc]
    simp

theorem mem_foldl_types {u : Usage} :
    name ∈ (sources.foldl (Usage.add qualifier rules) u).types ↔ name ∈ u.types ∨
      ∃ source ∈ sources, name ∈ typeReferences qualifier source ∧ rules.isInbound name = true := by
  induction sources generalizing u with
  | nil => simp
  | cons source sources ih =>
    rw [List.foldl_cons, ih, Usage.add, NameSet.mem_foldl_insert, List.mem_filter, or_assoc]
    simp

theorem mem_ofSources_accessors : name ∈ (Usage.ofSources qualifier rules sources).accessors ↔
    ∃ source ∈ sources, name ∈ accessorCalls source := by
  rw [Usage.ofSources, mem_foldl_accessors, or_iff_right NameSet.mem_empty]

theorem mem_ofSources_types : name ∈ (Usage.ofSources qualifier rules sources).types ↔
    ∃ source ∈ sources, name ∈ typeReferences qualifier source ∧ rules.isInbound name = true := by
  rw [Usage.ofSources, mem_foldl_types, or_iff_right NameSet.mem_empty]

theorem mem_ofSources_accessors_iff_add :
    name ∈ (Usage.ofSources qualifier rules sources).accessors ↔
      ∃ source ∈ sources, name ∈ (Usage.add qualifier rules {} source).accessors := by
  rw [mem_ofSources_accessors]
  refine exists_congr fun source => and_congr_right fun _ => ?_
  rw [Usage.add, NameSet.mem_foldl_insert, or_iff_right NameSet.mem_empty]

theorem mem_ofSources_types_iff_add :
    name ∈ (Usage.ofSources qualifier rules sources).types ↔
      ∃ source ∈ sources, name ∈ (Usage.add qualifier rules {} source).types := by
  rw [mem_ofSources_types]
  refine exists_congr fun source => and_congr_right fun _ => ?_
  rw [Usage.add, NameSet.mem_foldl_insert, or_iff_right NameSet.mem_empty, List.mem_filter]

end Accumulated

/-- A source adds exactly the accessors whose calls stand somewhere in it. -/
theorem mem_accessors_add (qualifier : Text) (rules : NamingRules) (u : Usage)
    (source name : Text) :
    name ∈ (u.add qualifier rules source).accessors ↔
      name ∈ u.accessors ∨ Exported name ∧ accessorCall name <:+: source := by
  rw [Usage.add, NameSet.mem_foldl_insert, mem_accessorCalls_iff]

/-- A source takes no type away, and each type that it adds is inbound and stands in it behind the
qualifier and a point.  A plain qualifier that does not continue an identifier is never overlooked:
the identifier behind its point is added if it is inbound. -/
theorem types_add (qualifier : Text) (rules : NamingRules) (u : Usage) (source : Text) :
    (∀ name ∈ u.types, name ∈ (u.add qualifier rules source).types) ∧
    (∀ name ∈ (u.add qualifier rules source).types, name ∈ u.types ∨
      NamesType qualifier name source ∧ rules.isInbound name = true) ∧
    (PlainQualifier qualifier → ∀ front c rest,
      source = front ++ (qualifier ++ '.' :: c :: rest) →
      (∀ d, front.getLast? = some d → isWord d = false) → c.isUpper = true →
      rules.isInbound (c :: rest.takeWhile isWord) = true →
        c :: rest.takeWhile isWord ∈ (u.add qualifier rules source).types) := by
  have found : ∀ name, name ∈ (u.add qualifier rules source).types ↔ name ∈ u.types ∨
      name ∈ typeReferences qualifier source ∧ rules.isInbound name = true := by
    intro name
    rw [Usage.add, NameSet.mem_foldl_insert, List.mem_filter]
  refine ⟨fun name h => (found name).2 (.inl h), fun name h => ?_, ?_⟩
  · rcases (found name).1 h with before | ⟨reference, inbound⟩
    · exact .inl before
    · exact .inr ⟨namesType_of_mem reference, inbound⟩
  · rintro plain front c rest rfl apart upper inbound
    have read : exportedName? (c :: rest) =
        some (c :: rest.takeWhile isWord, rest.dropWhile isWord) := if_pos upper
    obtain ⟨divided, exported, stop⟩ := exportedName?_eq_some_iff.1 read
    have reference := mem_typeReferences plain apart exported stop
    rw [← divided] at reference
    exact (found _).2 (.inr ⟨reference, inbound⟩)

def doublyQualified : Text := "f(pogo.pogo.AProto)".toList

/-- The type is found behind the second qualifier. -/
theorem found_of_doublyQualified :
    PlainQualifier Config.defaultQualifier ∧
    doublyQualified = "f(pogo.".toList ++ (Config.defaultQualifier ++ '.' :: "AProto)".toList) ∧
    "AProto".toList ∈ (({} : Usage).add Config.defaultQualifier ({} : NamingConfig).rules
      doublyQualified).types ∧
    NamesType Config.defaultQualifier "AProto".toList doublyQualified := by
  have plain : PlainQualifier Config.defaultQualifier := by
    refine ⟨by decide, by decide, fun c hc => ?_⟩
    obtain rfl : 'p' = c := Option.some.inj hc
    rfl
  have apart : ∀ d, "f(pogo.".toList.getLast? = some d → isWord d = false := by
    intro d hd
    obtain rfl : '.' = d := Option.some.inj hd
    rfl
  obtain ⟨-, sound, complete⟩ := types_add Config.defaultQualifier ({} : NamingConfig).rules {}
    doublyQualified
  have place : doublyQualified =
      "f(pogo.".toList ++ (Config.defaultQualifier ++ '.' :: "AProto)".toList) := by decide
  have found : "AProto".toList ∈ (({} : Usage).add Config.defaultQualifier
      ({} : NamingConfig).rules doublyQualified).types :=
    complete plain _ 'A' "Proto)".toList place apart (by decide) (by decide +kernel)
  refine ⟨plain, place, found, ?_⟩
  exact ((sound _ found).resolve_left NameSet.mem_empty).1

end LazyFields
