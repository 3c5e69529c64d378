import LazyFields.Proofs.NameMap
import LazyFields.Proofs.Schema.Reading
import LazyFields.Proofs.Text.Lines

/-!
# Reading schemas that are put together

A schema can be continued by another one when it ends with a line and no message is open there.  The
messages of the second one are then read as by themselves, only further down, and replace messages
of the same name.  All that passes between the two is which types are messages: a message that one
of them declares lets the reader keep more fields of the other one.
-/
namespace LazyFields.Schema
open Text

/-- A schema that another one can be put behind: its last line is ended, and the walk over its lines
ends outside every message. -/
structure Closed (content : Text) : Prop where
  ended : Ended content
  outside : Nesting.after .outside ((lines content).map trim) = .outside

section Names
variable {a : Text}

theorem enumNames_append (h : Ended a) (b : Text) :
    enumNames (a ++ b) = (enumNames a).union (enumNames b) := by
  simp only [enumNames, lines_append h, List.filterMap_append, NameSet.ofList_append]

theorem messageNames_append (h : Ended a) (b : Text) :
    messageNames (a ++ b) = (messageNames a).union (messageNames b) := by
  simp only [messageNames, lines_append h, List.filterMap_append, NameSet.ofList_append]

end Names

def Field.shift (k : Nat) (g : Field) : Field := { g with line := g.line + k }

theorem lazyable?_shift (isMessage : Text → Bool) (n k : Nat) (line : Text) :
    lazyable? isMessage (n + k) line = (lazyable? isMessage n line).map (Field.shift k) := by
  unfold lazyable?
  split
  · rfl
  · cases fieldDeclaration? line with
    | none => rfl
    | some d =>
      simp only
      split
      · rfl
      · rfl

theorem lazyable?_of_imp {isMessage isMessage' : Text → Bool}
    (wider : ∀ type, isMessage type = true → isMessage' type = true) {n : Nat} {line : Text}
    {g : Field} (h : lazyable? isMessage n line = some g) :
    lazyable? isMessage' n line = some g := by
  obtain ⟨unmarked, single, d, hd, hm, hg⟩ := lazyable?_eq_some_iff.1 h
  exact lazyable?_eq_some_iff.2 ⟨unmarked, single, d, hd, wider _ hm, hg⟩

namespace Reading
variable {isMessage isMessage' : Text → Bool} {R : List Field → List Field → Prop} {k : Nat}
variable {base : NameMap (List Field)} {r r' : Reading}

theorem nesting_foldl (ls : List Text) (n : Nat) (r : Reading) :
    ((ls.zipIdx n).foldl (push isMessage) r).nesting = r.nesting.after (ls.map trim) := by
  induction ls generalizing n r with
  | nil => rfl
  | cons line ls ih => rw [List.zipIdx_cons, List.foldl_cons, ih, nesting_push]; rfl

/-- What a line adds, and the same line `k` lines further down with other types of messages, keeps
the fields of a message related. -/
structure Carries (R : List Field → List Field → Prop) (isMessage isMessage' : Text → Bool)
    (k : Nat) : Prop where
  nil : R [] []
  added : ∀ n line depth fs fs', R fs fs' →
    R (added isMessage n line depth ++ fs) (added isMessage' (n + k) line depth ++ fs')
  reverse : ∀ fs fs', R fs fs' → R fs.reverse fs'.reverse

/-- Two readings stand at the same place, the second one after the messages of `base`: related are
the fields of the message that is open and of each that is closed, and a message that the first one
has not closed is as in `base`. -/
structure Alike (R : List Field → List Field → Prop) (base : NameMap (List Field))
    (r r' : Reading) : Prop where
  nesting : r'.nesting = r.nesting
  current : ∀ m d, r.nesting = .inside m d → R r.fields r'.fields
  closed : ∀ m fields, r.messages.find? m = some fields →
    ∃ fields', r'.messages.find? m = some fields' ∧ R fields fields'
  earlier : ∀ m, r.messages.find? m = none → r'.messages.find? m = base.find? m

/-- A reading that stands outside goes on like one that has read nothing.  Fields that it still
holds are of no account. -/
theorem alike_start (outside : r'.nesting = .outside) : Alike R r'.messages {} r' :=
  ⟨outside, fun _ _ h => (nomatch h), fun _ _ h => (nomatch h), fun _ _ => rfl⟩

theorem alike_push (hR : Carries R isMessage isMessage' k) (h : Alike R base r r') (line : Text)
    (n : Nat) : Alike R base (r.push isMessage (line, n)) (r'.push isMessage' (line, n + k)) := by
  rw [push_eq, push_eq, h.nesting]
  obtain ⟨-, -, hs⟩ | ⟨m, -, -, hs⟩ | ⟨m, d, hr, -, hs⟩ | ⟨m, d, depth, hr, -, -, hs⟩ :=
    r.nesting.step_cases (trim line)
  all_goals rw [hs]
  · exact ⟨rfl, fun _ _ hn => (nomatch hn), h.closed, h.earlier⟩
  · exact ⟨rfl, fun _ _ _ => hR.nil, h.closed, h.earlier⟩
  · refine ⟨rfl, fun _ _ hn => (nomatch hn), fun m' fields hfields => ?_, fun m' hm' => ?_⟩
    · rw [NameMap.find?_insert] at hfields ⊢
      split at hfields
      · rename_i hm
        obtain rfl := Option.some.inj hfields
        exact ⟨_, if_pos hm, hR.reverse _ _ (h.current m d hr)⟩
      · rename_i hm
        rw [if_neg hm]
        exact h.closed m' fields hfields
    · rw [NameMap.find?_insert] at hm' ⊢
      split at hm'
      · contradiction
      · rename_i hm
        rw [if_neg hm]
        exact h.earlier m' hm'
  · exact ⟨rfl, fun _ _ _ => hR.added n _ depth _ _ (h.current m d hr), h.closed, h.earlier⟩

theorem alike_foldl (hR : Carries R isMessage isMessage' k) (h : Alike R base r r') (ls : List Text)
    (n : Nat) : Alike R base ((ls.zipIdx n).foldl (push isMessage) r)
      ((ls.zipIdx (n + k)).foldl (push isMessage') r') := by
  induction ls generalizing n r r' with
  | nil => exact h
  | cons line ls ih =>
    have rest := ih (alike_push hR h line n) (n + 1)
    rw [Nat.add_right_comm] at rest
    simpa only [List.zipIdx_cons, List.foldl_cons] using rest

theorem carries_shift (isMessage : Text → Bool) (k : Nat) :
    Carries (fun fs fs' => fs' = fs.map (Field.shift k)) isMessage isMessage k where
  nil := rfl
  added := by
    rintro n line depth fs _ rfl
    unfold added
    split
    · rw [lazyable?_shift, List.map_append, Option.toList_map]
    · rfl
  reverse := by
    rintro fs _ rfl
    exact List.map_reverse.symm

theorem carries_sublist (wider : ∀ type, isMessage type = true → isMessage' type = true) :
    Carries List.Sublist isMessage isMessage' 0 where
  nil := List.Sublist.refl []
  added := by
    intro n line depth fs fs' sub
    refine List.Sublist.append ?_ sub
    unfold added
    split
    · cases hg : lazyable? isMessage n line with
      | none => exact List.nil_sublist _
      | some g =>
        have kept : lazyable? isMessage' (n + 0) line = some g := lazyable?_of_imp wider hg
        rw [kept]
    · exact List.Sublist.refl []
  reverse := fun _ _ sub => sub.reverse

end Reading

def messagesBy (isMessage : Text → Bool) (content : Text) : NameMap (List Field) :=
  (((lines content).zipIdx 1).foldl (Reading.push isMessage) {}).messages

section Messages
variable {isMessage isMessage' : Text → Bool} {m : Text}

/-- A message of two schemas put together is that of the second one, further down, or if it has none
of this name, that of the first one. -/
theorem find?_messagesBy_append {a : Text} (h : Closed a) (b : Text) :
    (messagesBy isMessage (a ++ b)).find? m =
      (((messagesBy isMessage b).find? m).map (List.map (Field.shift (lines a).length))).or
        ((messagesBy isMessage a).find? m) := by
  let first := ((lines a).zipIdx 1).foldl (Reading.push isMessage) {}
  have outside : first.nesting = .outside := (Reading.nesting_foldl (lines a) 1 {}).trans h.outside
  have run := Reading.alike_foldl (Reading.carries_shift isMessage (lines a).length)
    (Reading.alike_start outside) (lines b) 1
  rw [messagesBy, lines_append h.ended, List.zipIdx_append, List.foldl_append]
  cases hb : (messagesBy isMessage b).find? m with
  | none => exact run.earlier m hb
  | some fields =>
    obtain ⟨_, found, rfl⟩ := run.closed m fields hb
    exact found

section Wider
variable (wider : ∀ type, isMessage type = true → isMessage' type = true) (content : Text)
include wider

theorem alike_of_imp : Reading.Alike List.Sublist ∅
    (((lines content).zipIdx 1).foldl (Reading.push isMessage) {})
    (((lines content).zipIdx 1).foldl (Reading.push isMessage') {}) := by
  have start : Reading.Alike List.Sublist (Reading.messages {}) {} {} := Reading.alike_start rfl
  exact Reading.alike_foldl (Reading.carries_sublist wider) start (lines content) 1

/-- With more types of messages each closed message keeps its fields and may have others too. -/
theorem exists_sublist_of_imp {fields : List Field}
    (h : (messagesBy isMessage content).find? m = some fields) :
    ∃ fields', (messagesBy isMessage' content).find? m = some fields' ∧ fields.Sublist fields' :=
  (alike_of_imp wider content).closed m fields h

theorem find?_eq_none_of_imp (h : (messagesBy isMessage content).find? m = none) :
    (messagesBy isMessage' content).find? m = none :=
  (alike_of_imp wider content).earlier m h

theorem keys_of_imp :
    (messagesBy isMessage' content).keys = (messagesBy isMessage content).keys := by
  refine NameSet.ext_mem fun n => ?_
  simp only [NameMap.mem_keys_iff]
  constructor
  · rintro ⟨fields', hfields'⟩
    cases hn : (messagesBy isMessage content).find? n with
    | some fields => exact ⟨fields, rfl⟩
    | none =>
      rw [find?_eq_none_of_imp wider content hn] at hfields'
      contradiction
  · rintro ⟨fields, hfields⟩
    obtain ⟨fields', hfields', -⟩ := exists_sublist_of_imp wider content hfields
    exact ⟨fields', hfields'⟩

end Wider

end Messages

section Joined
variable {a : Text} {enums : NameSet} {rules : NamingRules}

theorem isMessageType_of_subset {declared declared' : NameSet}
    (sub : ∀ n ∈ declared, n ∈ declared') {type : Text}
    (h : isMessageType declared enums rules type = true) :
    isMessageType declared' enums rules type = true := by
  simp only [isMessageType, Bool.and_eq_true, Bool.or_eq_true, decide_eq_true_eq] at h ⊢
  exact h.imp_left fun h => h.imp_left fun h => h.imp_left (sub type)

theorem isMessageType_append_left (h : Ended a) (b type : Text)
    (read : isMessageType (messageNames a) enums rules type = true) :
    isMessageType (messageNames (a ++ b)) enums rules type = true := by
  rw [messageNames_append h]
  exact isMessageType_of_subset (fun _ hn => NameSet.mem_union.2 (.inl hn)) read

theorem isMessageType_append_right (h : Ended a) (b type : Text)
    (read : isMessageType (messageNames b) enums rules type = true) :
    isMessageType (messageNames (a ++ b)) enums rules type = true := by
  rw [messageNames_append h]
  exact isMessageType_of_subset (fun _ hn => NameSet.mem_union.2 (.inr hn)) read

/-- Both schemas are read with the types of messages of both put together. -/
theorem find?_readMessages_append (h : Closed a) (b m : Text) :
    (readMessages (a ++ b) enums rules).find? m =
      (((messagesBy (isMessageType (messageNames (a ++ b)) enums rules) b).find? m).map
        (List.map (Field.shift (lines a).length))).or
          ((messagesBy (isMessageType (messageNames (a ++ b)) enums rules) a).find? m) :=
  find?_messagesBy_append h b

theorem keys_readMessages_append (h : Closed a) (b : Text) :
    (readMessages (a ++ b) enums rules).keys =
      (readMessages a enums rules).keys.union (readMessages b enums rules).keys := by
  have first : (messagesBy (isMessageType (messageNames (a ++ b)) enums rules) a).keys =
      (readMessages a enums rules).keys := keys_of_imp (isMessageType_append_left h.ended b) a
  have second : (messagesBy (isMessageType (messageNames (a ++ b)) enums rules) b).keys =
      (readMessages b enums rules).keys := keys_of_imp (isMessageType_append_right h.ended b) b
  refine NameSet.ext_mem fun n => ?_
  rw [NameSet.mem_union, ← first, ← second]
  simp only [NameMap.mem_keys_iff, find?_readMessages_append h]
  cases (messagesBy (isMessageType (messageNames (a ++ b)) enums rules) b).find? n with
  | none => simp
  | some fields => simp

theorem exists_sublist_append_right (h : Closed a) (b : Text) {m : Text} {fields : List Field}
    (hfields : (readMessages b enums rules).find? m = some fields) :
    ∃ fields', (readMessages (a ++ b) enums rules).find? m = some fields' ∧
      (fields.map (Field.shift (lines a).length)).Sublist fields' := by
  obtain ⟨more, hmore, sub⟩ :=
    exists_sublist_of_imp (isMessageType_append_right h.ended b) b hfields
  refine ⟨more.map (Field.shift (lines a).length), ?_, sub.map _⟩
  rw [find?_readMessages_append h, hmore]
  rfl

theorem exists_sublist_append_left (h : Closed a) (b : Text) {m : Text} {fields : List Field}
    (hfields : (readMessages a enums rules).find? m = some fields)
    (hb : (readMessages b enums rules).find? m = none) :
    ∃ fields', (readMessages (a ++ b) enums rules).find? m = some fields' ∧
      fields.Sublist fields' := by
  obtain ⟨more, hmore, sub⟩ :=
    exists_sublist_of_imp (isMessageType_append_left h.ended b) a hfields
  refine ⟨more, ?_, sub⟩
  rw [find?_readMessages_append h, find?_eq_none_of_imp (isMessageType_append_right h.ended b) b hb]
  exact hmore

end Joined
end LazyFields.Schema
