import LazyFields.Proofs.Candidates
import LazyFields.Proofs.Text.ByteOrder

/-!
# Decisions in one pass

Selection joins the used messages with the fields that the schema keeps for them, and the
decisions tell this join field by field.  A listener may be told each decision as it is made, in the
pass in which the candidates are gathered.  What the listener does with it has no part in the
selection, and what it is told is the list of all decisions.
-/
namespace LazyFields
open Schema Text

section Told
variable {σ : Type} {tell : σ → Decision → σ} {model : Model} {accessors : NameSet}

theorem tellMessage_eq (s : σ × Candidates) (message : Text) :
    tellMessage tell model accessors s message =
      (((model.fields? message).getD []).map (decideField accessors message)).foldl
        (fun s d => (tell s.1 d, if d.used then s.2 else s.2.insert d.message d.field)) s := by
  rw [tellMessage, List.foldl_map]
  cases model.fields? message with
  | none => rfl
  | some fields => rfl

/-- One pass does what two do: the listener is told all decisions, and the candidates are those of
the selection. -/
theorem selectTelling_eq (s : σ) (types : NameSet) :
    selectTelling tell model accessors s types =
      ((decisions types model accessors).foldl tell s, select types model accessors) := by
  simp only [selectTelling, funext₂ tellMessage_eq]
  rw [← List.foldl_flatMap]
  exact List.foldl_hom₂ _ Prod.mk tell _ _ s ∅ fun _ _ _ => rfl

end Told

section Joined
variable {types accessors : NameSet} {model : Model}

theorem decisions_eq_flatMap : decisions types model accessors =
    ((messageTypes types model).filter fun m => (model.fields? m).isSome).toList.flatMap
      fun m => ((model.fields? m).getD []).map (decideField accessors m) := by
  dsimp only [decisions, NameSet.filter]
  induction (messageTypes types model).toList with
  | nil => rfl
  | cons m ms ih =>
    rw [List.flatMap_cons, ih]
    cases kept : model.fields? m with
    | none =>
      rw [List.filter_cons_of_neg (by simp [kept])]
      rfl
    | some fields =>
      rw [List.filter_cons_of_pos (by simp [kept]), List.flatMap_cons, kept]

/-- As many pairs are selected as the decisions against a use name different ones. -/
theorem total_select : (select types model accessors).total =
    (((decisions types model accessors).filter (!·.used)).map
      fun d => (d.message, d.field)).dedup.length := by
  rw [← Candidates.length_pairs]
  refine List.Perm.length_eq ?_
  refine (List.perm_ext_iff_of_nodup (Candidates.nodup_pairs _) (List.nodup_dedup _)).2 ?_
  rintro ⟨m, f⟩
  rw [Candidates.mem_pairs, select, Candidates.mem_ofDecisions]
  simp [and_assoc]

end Joined

/-- The selection is the join of the used messages with the fields that the schema keeps for them,
less the fields whose accessor is called.  The decisions are made message by message in ascending
order of the bytes of their names, and in a message in the order of declaration; the selected pairs
are those of the decisions against a use, and each is counted once.  Whoever is told the decisions
is told all of them in this order and does not change what is selected. -/
theorem select_tells_join (types : NameSet) (model : Model) (accessors : NameSet) :
    (∀ m f, (m, f) ∈ select types model accessors ↔ m ∈ types ∧ m ∉ model.enums ∧
      ∃ fields, model.fields? m = some fields ∧
        ∃ g ∈ fields, g.name = f ∧ accessorName f ∉ accessors) ∧
    (∃ messages : List Text,
      messages.Pairwise
        (fun m n => (Utf8.encode m).data.toList < (Utf8.encode n).data.toList) ∧
      (∀ m, m ∈ messages ↔
        m ∈ types ∧ m ∉ model.enums ∧ ∃ fields, model.fields? m = some fields) ∧
      decisions types model accessors = messages.flatMap fun m =>
        ((model.fields? m).getD []).map fun g =>
          ⟨m, g.name, g.type, decide (accessorName g.name ∈ accessors)⟩) ∧
    (∀ m f, (m, f) ∈ select types model accessors ↔
      ∃ d ∈ decisions types model accessors, d.used = false ∧ d.message = m ∧ d.field = f) ∧
    (select types model accessors).total =
      (((decisions types model accessors).filter (!·.used)).map
        fun d => (d.message, d.field)).dedup.length ∧
    ∀ (σ : Type) (tell : σ → Decision → σ) (s : σ),
      selectTelling tell model accessors s types =
        ((decisions types model accessors).foldl tell s, select types model accessors) := by
  refine ⟨fun m f => ?_, ?_, fun m f => Candidates.mem_ofDecisions, total_select,
    fun σ tell s => selectTelling_eq s types⟩
  · rw [mem_select_iff]
    constructor
    · rintro ⟨used, noEnum, ⟨fields, kept, g, hg, name⟩, unread⟩
      exact ⟨used, noEnum, fields, kept, g, hg, name, unread⟩
    · rintro ⟨used, noEnum, fields, kept, g, hg, name, unread⟩
      exact ⟨used, noEnum, ⟨fields, kept, g, hg, name⟩, unread⟩
  · let decided := (messageTypes types model).filter fun m => (model.fields? m).isSome
    refine ⟨decided.toList, decided.ascending.imp Utf8.encode_lt_iff.2, fun m => ?_,
      decisions_eq_flatMap⟩
    rw [NameSet.mem_toList, NameSet.mem_filter, mem_messageTypes, and_assoc,
      Option.isSome_iff_exists]

end LazyFields
