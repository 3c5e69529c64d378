import LazyFields.Config.Basic
import LazyFields.Proofs.Accessor
import LazyFields.Proofs.Annotation.Pass
import LazyFields.Proofs.Usage

/-!
# Marked fields are read nowhere

What a pass marks, after any number of sources has been searched, is the name of a field that the
schema keeps for a message which a source names, and whose accessor no source calls.
-/
namespace LazyFields
open Text Schema

def sourceCandidates (qualifier : Text) (rules : NamingRules) (sources : List Text)
    (content : Text) : Candidates :=
  passCandidates rules (Usage.ofSources qualifier rules sources).types
    (Usage.ofSources qualifier rules sources).accessors content

/-- A field of a message that the sources use but whose accessor they do not call. -/
structure Unread (qualifier : Text) (rules : NamingRules) (sources : List Text)
    (content m field : Text) : Prop where
  used : m ∈ (Usage.ofSources qualifier rules sources).types
  named : ∃ source ∈ sources, NamesType qualifier m source
  inbound : rules.isInbound m = true
  noEnum : m ∉ (Model.read content rules).enums
  stored : ∃ fields, (Model.read content rules).fields? m = some fields ∧ ∃ g ∈ fields,
    g.name = field ∧ ∃ i line, DeclaredIn content rules m g i line
  uncalled : (∃ c, (accessorName field).head? = some c ∧ c.isUpper = true) →
    ∀ source ∈ sources, ¬accessorCall (accessorName field) <:+: source

theorem exported_accessorName {field : Text} (h : FieldName field) {c : Char}
    (hc : (accessorName field).head? = some c) (upper : c.isUpper = true) :
    Exported (accessorName field) := by
  cases hname : accessorName field with
  | nil => simp [hname] at hc
  | cons d rest =>
    obtain rfl : d = c := by simpa [hname] using hc
    refine ⟨d, rest, rfl, upper, fun e he => ?_⟩
    apply isWord_of_mem_accessorName h.row.2
    rw [hname]
    exact List.mem_cons_of_mem _ he

/-- The line that a pass marks names a field of the open message that no source reads. -/
theorem unread_of_rewritten (qualifier : Text) (rules : NamingRules) (sources : List Text)
    (content : Text) {i : Nat}
    (h : Rewritten content (sourceCandidates qualifier rules sources content) i) :
    ∃ m line, InBody content i m ∧ (lines content)[i]? = some line ∧
      Unread qualifier rules sources content m (nameToken line) := by
  obtain ⟨m, line, hbody, hline, -, selected⟩ := rewritten_pass_iff.1 h
  obtain ⟨hused, noEnum, ⟨fields, hfields, g, hg, hname⟩, unread⟩ := mem_select_iff.1 selected
  obtain ⟨source, hsource, hmem, inbound⟩ := mem_ofSources_types.1 hused
  refine ⟨m, line, hbody, hline, hused, ⟨source, hsource, namesType_of_mem hmem⟩, inbound, noEnum,
    ⟨fields, hfields, g, hg, hname, exists_declaredIn hfields hg⟩, ?_⟩
  rintro ⟨c, hc, upper⟩ other hother called
  have exported := exported_accessorName (fieldName_of_mem selected) hc upper
  apply unread
  exact mem_ofSources_accessors.2 ⟨other, hother, mem_accessorCalls_iff.2 ⟨exported, called⟩⟩

def twoFields : Text := "message AProto \x7b\n  BProto b = 1;\n  BProto c = 2;\n\x7d\n".toList

def secondRead : Text := "func f(x *pogo.AProto) \x7b x.GetC() \x7d".toList

/-- Under the default rules the first field is marked, and no source reads it. -/
theorem unread_of_twoFields :
    Rewritten twoFields (sourceCandidates Config.defaultQualifier ({} : NamingConfig).rules
      [secondRead] twoFields) 1 ∧
    Unread Config.defaultQualifier ({} : NamingConfig).rules [secondRead] twoFields
      "AProto".toList "b".toList := by
  have marked : Rewritten twoFields (sourceCandidates Config.defaultQualifier
      ({} : NamingConfig).rules [secondRead] twoFields) 1 := by decide +kernel
  refine ⟨marked, ?_⟩
  obtain ⟨m, line, hbody, hline, unread⟩ := unread_of_rewritten _ _ _ _ marked
  have body : InBody twoFields 1 "AProto".toList := by decide +kernel
  have declaration : (lines twoFields)[1]? = some "  BProto b = 1;".toList := by decide +kernel
  have name : nameToken "  BProto b = 1;".toList = "b".toList := by decide +kernel
  obtain rfl := hbody.unique body
  obtain rfl := Option.some.inj (hline.symm.trans declaration)
  rwa [name] at unread

end LazyFields
