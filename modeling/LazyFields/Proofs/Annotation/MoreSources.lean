import LazyFields.Proofs.Annotation.Unread

/-!
# More sources

A further source may call accessors and name types.  For a message that is used anyway it takes
candidates away and brings none, so of the lines of that message no further one is marked.  The
order of the sources does not matter, nor how often one of them occurs.
-/
namespace LazyFields
open Text Schema

section Selected
variable {types types' accessors accessors' : NameSet} {model : Model} {m f : Text}

theorem mem_select_of_subset (calls : ∀ n ∈ accessors, n ∈ accessors') (used : m ∈ types)
    (h : (m, f) ∈ select types' model accessors') : (m, f) ∈ select types model accessors := by
  obtain ⟨-, noEnum, stored, uncalled⟩ := mem_select_iff.1 h
  have still : accessorName f ∉ accessors := fun called => uncalled (calls _ called)
  exact mem_select_iff.2 ⟨used, noEnum, stored, still⟩

end Selected

theorem Rewritten.mono {content m : Text} {c d : Candidates} {i : Nat} (h : Rewritten content d i)
    (hbody : InBody content i m) (sub : ∀ f, (m, f) ∈ d → (m, f) ∈ c) : Rewritten content c i := by
  obtain ⟨m', line, hbody', hline, unmarked, type, field, tail, hfield, declaration⟩ :=
    rewritten_iff.1 h
  obtain rfl := hbody'.unique hbody
  exact rewritten_iff.2
    ⟨m', line, hbody', hline, unmarked, type, field, tail, sub field hfield, declaration⟩

section Sources
variable {qualifier : Text} {rules : NamingRules} {sources more : List Text}

theorem accessors_subset (sub : ∀ s ∈ sources, s ∈ more) {n : Text}
    (h : n ∈ (Usage.ofSources qualifier rules sources).accessors) :
    n ∈ (Usage.ofSources qualifier rules more).accessors := by
  obtain ⟨source, hsource, called⟩ := mem_ofSources_accessors.1 h
  exact mem_ofSources_accessors.2 ⟨source, sub source hsource, called⟩

theorem types_subset (sub : ∀ s ∈ sources, s ∈ more) {n : Text}
    (h : n ∈ (Usage.ofSources qualifier rules sources).types) :
    n ∈ (Usage.ofSources qualifier rules more).types := by
  obtain ⟨source, hsource, named⟩ := mem_ofSources_types.1 h
  exact mem_ofSources_types.2 ⟨source, sub source hsource, named⟩

theorem ofSources_congr (sub : ∀ s ∈ sources, s ∈ more) (sup : ∀ s ∈ more, s ∈ sources) :
    Usage.ofSources qualifier rules sources = Usage.ofSources qualifier rules more := by
  have accessors : (Usage.ofSources qualifier rules sources).accessors =
      (Usage.ofSources qualifier rules more).accessors :=
    NameSet.ext_mem fun _ => ⟨accessors_subset sub, accessors_subset sup⟩
  have types : (Usage.ofSources qualifier rules sources).types =
      (Usage.ofSources qualifier rules more).types :=
    NameSet.ext_mem fun _ => ⟨types_subset sub, types_subset sup⟩
  exact congrArg₂ Usage.mk accessors types

end Sources

def sourceDecisions (qualifier : Text) (rules : NamingRules) (sources : List Text)
    (content : Text) : List Decision :=
  decisions (Usage.ofSources qualifier rules sources).types (Model.read content rules)
    (Usage.ofSources qualifier rules sources).accessors

/-- Further sources rescue fields of the messages that are used already and lose none: such a
message has no candidate and no marked line that it would not have without them.  Sources that
were all there before change nothing at all. -/
theorem more_sources (qualifier : Text) (rules : NamingRules) (content : Text)
    {sources more : List Text} (sub : ∀ s ∈ sources, s ∈ more) :
    (∀ m ∈ (Usage.ofSources qualifier rules sources).types,
      (∀ f, (m, f) ∈ sourceCandidates qualifier rules more content →
        (m, f) ∈ sourceCandidates qualifier rules sources content) ∧
      ∀ i, InBody content i m →
        Rewritten content (sourceCandidates qualifier rules more content) i →
          Rewritten content (sourceCandidates qualifier rules sources content) i) ∧
    ((∀ s ∈ more, s ∈ sources) →
      (Usage.ofSources qualifier rules more).accessors =
          (Usage.ofSources qualifier rules sources).accessors ∧
        (Usage.ofSources qualifier rules more).types =
          (Usage.ofSources qualifier rules sources).types ∧
        sourceCandidates qualifier rules more content =
          sourceCandidates qualifier rules sources content ∧
        sourceDecisions qualifier rules more content =
          sourceDecisions qualifier rules sources content ∧
        annotate content (sourceCandidates qualifier rules more content) =
          annotate content (sourceCandidates qualifier rules sources content)) := by
  refine ⟨fun m used => ?_, fun sup => ?_⟩
  · have rescued : ∀ f, (m, f) ∈ sourceCandidates qualifier rules more content →
        (m, f) ∈ sourceCandidates qualifier rules sources content :=
      fun f h => mem_select_of_subset (fun _ => accessors_subset sub) used h
    exact ⟨rescued, fun i hbody h => h.mono hbody rescued⟩
  · have same : Usage.ofSources qualifier rules more = Usage.ofSources qualifier rules sources :=
      ofSources_congr sup sub
    simp only [sourceCandidates, sourceDecisions, same, and_self]

def firstUse : Text := "var reply pogo.AProto".toList

/-- Both fields are marked when the message is only named.  A source that reads the second field
rescues it and leaves the first one marked; to search it twice, or before the other, is the same. -/
theorem rescued_of_secondRead :
    (∀ s ∈ [firstUse], s ∈ [secondRead, firstUse]) ∧
    "AProto".toList ∈ (Usage.ofSources Config.defaultQualifier ({} : NamingConfig).rules
      [firstUse]).types ∧
    InBody twoFields 1 "AProto".toList ∧
    Rewritten twoFields (sourceCandidates Config.defaultQualifier ({} : NamingConfig).rules
      [secondRead, firstUse] twoFields) 1 ∧
    Rewritten twoFields (sourceCandidates Config.defaultQualifier ({} : NamingConfig).rules
      [firstUse] twoFields) 1 ∧
    ¬Rewritten twoFields (sourceCandidates Config.defaultQualifier ({} : NamingConfig).rules
      [secondRead, firstUse] twoFields) 2 ∧
    Rewritten twoFields (sourceCandidates Config.defaultQualifier ({} : NamingConfig).rules
      [firstUse] twoFields) 2 ∧
    sourceCandidates Config.defaultQualifier ({} : NamingConfig).rules
        [secondRead, firstUse, secondRead] twoFields =
      sourceCandidates Config.defaultQualifier ({} : NamingConfig).rules
        [firstUse, secondRead] twoFields := by
  have sub : ∀ s ∈ [firstUse], s ∈ [secondRead, firstUse] := by simp
  have used : "AProto".toList ∈ (Usage.ofSources Config.defaultQualifier
      ({} : NamingConfig).rules [firstUse]).types := by decide +kernel
  have body : InBody twoFields 1 "AProto".toList := by decide +kernel
  have marked : Rewritten twoFields (sourceCandidates Config.defaultQualifier
      ({} : NamingConfig).rules [secondRead, firstUse] twoFields) 1 := by decide +kernel
  obtain ⟨rescues, -⟩ :=
    more_sources Config.defaultQualifier ({} : NamingConfig).rules twoFields sub
  have twice : ∀ s ∈ [firstUse, secondRead], s ∈ [secondRead, firstUse, secondRead] := by simp
  obtain ⟨-, settled⟩ :=
    more_sources Config.defaultQualifier ({} : NamingConfig).rules twoFields twice
  obtain ⟨-, -, candidates, -⟩ := settled (by simp)
  refine ⟨sub, used, body, marked, (rescues _ used).2 1 body marked, ?_, ?_, candidates⟩
  · decide +kernel
  · decide +kernel

end LazyFields
