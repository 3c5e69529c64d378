import LazyFields.Proofs.NameMap
import LazyFields.Proofs.Schema.Spans
import LazyFields.Proofs.Text.Lines

/-!
# The reader and the spans

The reader sees each line once.  Outside of a span it keeps what it has, inside of one it collects
the fields of the span so far, and where the span ends it stores them.  So it keeps for each
message the fields in its last span.
-/
namespace LazyFields.Schema
open Text

namespace Reading
variable {isMessage : Text → Bool} {r : Reading} {line : Text} {n : Nat}

theorem push_outside (hr : r.nesting = .outside) (h : messageOpener? (trim line) = none) :
    r.push isMessage (line, n) = r := by
  rw [push_eq, hr]
  simp [Nesting.step, h, ← hr]

theorem push_opener {m : Text} (hr : r.nesting = .outside)
    (h : messageOpener? (trim line) = some m) :
    r.push isMessage (line, n) = ⟨.inside m 1, [], r.messages⟩ := by
  rw [push_eq, hr]
  simp [Nesting.step, h]

variable {m : Text} {d : Int} {fields : List Field} {messages : NameMap (List Field)}

theorem push_body (h : d + braceBalance (trim line) ≠ 0) :
    Reading.push isMessage ⟨.inside m d, fields, messages⟩ (line, n) =
      ⟨.inside m (d + braceBalance (trim line)),
        added isMessage n (trim line) (d + braceBalance (trim line)) ++ fields, messages⟩ := by
  rw [push_eq]
  simp [Nesting.step, h]

theorem push_closer (h : d + braceBalance (trim line) = 0) :
    Reading.push isMessage ⟨.inside m d, fields, messages⟩ (line, n) =
      ⟨.outside, [], messages.insert m fields.reverse⟩ := by
  rw [push_eq]
  simp [Nesting.step, h]

theorem reverse_added (isMessage : Text → Bool) (n : Nat) (line : Text) (depth : Int) :
    (added isMessage n line depth).reverse = added isMessage n line depth := by
  unfold added
  split
  · cases lazyable? isMessage n line <;> rfl
  · rfl

def readFrom (isMessage : Text → Bool) (ls : List Text) (k : Nat) (r : Reading) : Reading :=
  ((ls.drop k).zipIdx (k + 1)).foldl (push isMessage) r

variable {ls : List Text} {k : Nat}

theorem readFrom_of_lt (hk : k < ls.length) (r : Reading) : readFrom isMessage ls k r =
    readFrom isMessage ls (k + 1) (r.push isMessage (ls[k], k + 1)) := by
  rw [readFrom, List.drop_eq_getElem_cons hk, List.zipIdx_cons, List.foldl_cons]
  rfl

theorem readFrom_length (r : Reading) : readFrom isMessage ls ls.length r = r := by
  simp [readFrom]

end Reading

/-- The reader, which is given the types of messages, finds on each line the field that the line
declares. -/
def Finds (isMessage : Text → Bool) (ls : List Text) (enums : NameSet) (rules : NamingRules) :
    Prop :=
  ∀ k (hk : k < ls.length), trim ls[k] = ls[k] ∧
    lazyable? isMessage (k + 1) ls[k] = declaredField? ls enums rules k

section Run
variable {isMessage : Text → Bool} {ls : List Text} {enums : NameSet} {rules : NamingRules}
  (finds : Finds isMessage ls enums rules) {i k start : Nat} {m : Text}
include finds

theorem readFrom_outside (le : start ≤ i) (hi : i ≤ ls.length)
    (none_opens : ∀ k, start ≤ k → k < i → openedAt ls k = none) {r : Reading}
    (hr : r.nesting = .outside) : r.readFrom isMessage ls start = r.readFrom isMessage ls i := by
  induction i, le using Nat.le_induction with
  | base => rfl
  | succ i le ih =>
    have hlt : i < ls.length := by omega
    have unopened : messageOpener? (trim ls[i]) = none := by
      have := none_opens i le (Nat.lt_succ_self i)
      rw [openedAt, List.getElem?_eq_getElem hlt] at this
      rwa [(finds i hlt).1]
    rw [ih (by omega) fun k hle hk => none_opens k hle (by omega), Reading.readFrom_of_lt hlt,
      Reading.push_outside hr unopened]

theorem readFrom_inside (le : i ≤ k) (hk : k < ls.length)
    (still_open : ∀ n, i < n → n ≤ k → depthAfter ls i n ≠ 0) (m : Text)
    (messages : NameMap (List Field)) :
    Reading.readFrom isMessage ls (i + 1) ⟨.inside m 1, [], messages⟩ =
      Reading.readFrom isMessage ls (k + 1)
        ⟨.inside m (depthAfter ls i k), (Span.fields ls enums rules ⟨m, i, k + 1⟩).reverse,
          messages⟩ := by
  induction k, le using Nat.le_induction with
  | base => rw [depthAfter_self, Span.fields_start, List.reverse_nil]
  | succ k le ih =>
    obtain ⟨trimmed, found⟩ := finds (k + 1) hk
    have depth := depthAfter_succ le hk
    have grown : Span.fields ls enums rules ⟨m, i, k + 1 + 1⟩ =
        Span.fields ls enums rules ⟨m, i, k + 1⟩ ++
          Reading.added isMessage (k + 1 + 1) ls[k + 1] (depthAfter ls i (k + 1)) := by
      rw [Span.fields_succ (Nat.lt_succ_of_le le), Reading.added, found]
    have still : depthAfter ls i k + braceBalance (trim ls[k + 1]) ≠ 0 := by
      rw [trimmed, ← depth]
      exact still_open (k + 1) (by omega) le_rfl
    rw [ih (by omega) fun n hn hle => still_open n hn (by omega), Reading.readFrom_of_lt hk,
      Reading.push_body still, trimmed, ← depth, grown, List.reverse_append, Reading.reverse_added]

theorem readFrom_closes {j : Nat} (closes : ClosesFirst ls i j) (m : Text)
    (messages : NameMap (List Field)) :
    Reading.readFrom isMessage ls (i + 1) ⟨.inside m 1, [], messages⟩ =
      Reading.readFrom isMessage ls (j + 1)
        ⟨.outside, [], messages.insert m (Span.fields ls enums rules ⟨m, i, j⟩)⟩ := by
  obtain ⟨k, rfl⟩ : ∃ k, j = k + 1 := ⟨j - 1, by have := closes.lt; omega⟩
  have le : i ≤ k := Nat.le_of_lt_succ closes.lt
  have hj := closes.exists_line
  have balanced := closes.closes
  rw [depthAfter_succ le hj, ← (finds (k + 1) hj).1] at balanced
  rw [readFrom_inside finds le (by omega) fun n hn hle => closes.first n hn (by omega),
    Reading.readFrom_of_lt hj, Reading.push_closer balanced, List.reverse_reverse]

theorem messages_readFrom {spans : List Span} (h : Spans ls start spans)
    (le : start ≤ ls.length) {r : Reading} (hr : r.nesting = .outside) :
    (r.readFrom isMessage ls start).messages =
      spans.foldl (fun messages s => messages.insert s.message (s.fields ls enums rules))
        r.messages := by
  -- The reader is outside wherever a span may begin, so each span starts with no fields.
  induction h generalizing r with
  | done none_opens =>
    rw [readFrom_outside finds le le_rfl (fun k hk _ => none_opens k hk) hr,
      Reading.readFrom_length]
    rfl
  | @unclosed start i m opens none_closes =>
    have hi := lt_of_openedAt opens.opens
    have opener := messageOpener?_of_openedAt hi opens.opens
    rw [← (finds i hi).1] at opener
    -- The span stays open to the end, and what has been collected in it is never stored.
    have still_open : ∀ n, i < n → n ≤ ls.length - 1 → depthAfter ls i n ≠ 0 := by
      intro n hn hle zero
      obtain ⟨j, closes⟩ := exists_closesFirst hn (by omega) zero
      exact none_closes j closes
    rw [readFrom_outside finds opens.le hi.le opens.first hr, Reading.readFrom_of_lt hi,
      Reading.push_opener hr opener,
      readFrom_inside finds (Nat.le_sub_one_of_lt hi) (by omega) still_open,
      Nat.sub_add_cancel (by omega), Reading.readFrom_length]
    rfl
  | @closed start i j m spans opens closes rest ih =>
    have hi := lt_of_openedAt opens.opens
    have opener := messageOpener?_of_openedAt hi opens.opens
    rw [← (finds i hi).1] at opener
    rw [readFrom_outside finds opens.le hi.le opens.first hr, Reading.readFrom_of_lt hi,
      Reading.push_opener hr opener, readFrom_closes finds closes,
      ih (Nat.succ_le_of_lt closes.exists_line) rfl, List.foldl_cons]

end Run

theorem find?_foldl_insert {β : Type} (value : Span → β) (spans : List Span) (messages : NameMap β)
    (m : Text) :
    (spans.foldl (fun messages s => messages.insert s.message (value s)) messages).find? m =
      ((spans.filter fun s => s.message = m).getLast?.map value).or (messages.find? m) := by
  induction spans generalizing messages with
  | nil => rfl
  | cons s spans ih =>
    rw [List.foldl_cons, ih, NameMap.find?_insert]
    by_cases h : s.message = m
    · rw [if_pos h.symm, List.filter_cons_of_pos (by simpa using h), List.getLast?_cons]
      cases (spans.filter fun s => s.message = m).getLast? with
      | none => rfl
      | some t => rfl
    · rw [if_neg (Ne.symm h), List.filter_cons_of_neg (by simpa using h)]

section Reader
variable (content : Text) (enums : NameSet) (rules : NamingRules)

/-- The trimmed lines are those that the reader sees, and at most one more, which is empty. -/
theorem trimmedLines_eq : ∃ extra, (extra = [] ∨ extra = [[]]) ∧
    trimmedLines content = (lines content).map trim ++ extra := by
  obtain ⟨extra, hextra, pieces_trim⟩ := (cut_pieces content).map_trim_splitOn
  rw [flatten_pieces, map_trim_pieces] at pieces_trim
  exact ⟨extra, hextra, pieces_trim⟩

theorem mem_messageNames {type : Text} :
    type ∈ messageNames content ↔ ∃ l ∈ trimmedLines content, messageOpener? l = some type := by
  obtain ⟨extra, hextra, eq⟩ := trimmedLines_eq content
  have void : ¬∃ l ∈ extra, messageOpener? l = some type := by
    rintro ⟨l, hl, opens⟩
    rcases hextra with rfl | rfl
    · contradiction
    · rw [List.mem_singleton.1 hl] at opens
      contradiction
  simp only [messageNames, NameSet.mem_ofList, List.mem_filterMap, eq, List.mem_append,
    or_and_right, exists_or, or_iff_left void, List.mem_map]
  constructor
  · rintro ⟨l, hl, opens⟩
    exact ⟨trim l, ⟨l, hl, rfl⟩, opens⟩
  · rintro ⟨_, ⟨l, hl, rfl⟩, opens⟩
    exact ⟨l, hl, opens⟩

theorem isMessageType_iff {ls : List Text} {type : Text}
    (declared : type ∈ messageNames content ↔ ∃ l ∈ ls, messageOpener? l = some type) :
    isMessageType (messageNames content) enums rules type = true ↔
      ((∃ l ∈ ls, messageOpener? l = some type) ∨ rules.messageSuffix <:+ type) ∧
        ¬isPrimitive type ∧ type ∉ enums := by
  simp [isMessageType, NamingRules.hasMessageSuffix, declared, and_assoc]

theorem lazyable?_eq_declaredField? {ls : List Text} {k : Nat} (hk : k < ls.length)
    (declared : ∀ type, type ∈ messageNames content ↔ ∃ l ∈ ls, messageOpener? l = some type) :
    lazyable? (isMessageType (messageNames content) enums rules) (k + 1) ls[k] =
      declaredField? ls enums rules k := by
  ext g
  simp only [lazyable?_eq_some_iff, declaredField?, List.getElem?_eq_getElem hk, bind,
    Option.bind_some, Option.bind_eq_some_iff, Option.ite_none_right_eq_some, pure,
    Option.some.injEq, isMessageType_iff content enums rules (declared _), ← holds_iff_infix,
    Bool.not_eq_true]
  constructor
  · rintro ⟨unmarked, single, d, hd, message, rfl⟩
    exact ⟨d, hd, ⟨unmarked, single, message⟩, rfl⟩
  · rintro ⟨d, hd, ⟨unmarked, single, message⟩, rfl⟩
    exact ⟨unmarked, single, d, hd, message, rfl⟩

theorem finds_trimmedLines : Finds (isMessageType (messageNames content) enums rules)
    (trimmedLines content) enums rules := by
  intro k hk
  refine ⟨?_, lazyable?_eq_declaredField? content enums rules hk fun _ => mem_messageNames content⟩
  simp only [trimmedLines, List.getElem_map]
  exact trim_trim _

theorem foldl_push_trim {isMessage : Text → Bool} (ls : List Text) (n : Nat) (r : Reading) :
    (ls.zipIdx n).foldl (Reading.push isMessage) r =
      ((ls.map trim).zipIdx n).foldl (Reading.push isMessage) r := by
  induction ls generalizing n r with
  | nil => rfl
  | cons line ls ih =>
    have same : r.push isMessage (line, n) = r.push isMessage (trim line, n) := by
      simp only [Reading.push, trim_trim]
    rw [List.map_cons, List.zipIdx_cons, List.zipIdx_cons, List.foldl_cons, List.foldl_cons, same,
      ih]

theorem nesting_foldl_push {isMessage : Text → Bool} (numbered : List (Text × Nat)) {r : Reading}
    (hr : ∀ m, r.nesting ≠ .inside m 0) (m : Text) :
    (numbered.foldl (Reading.push isMessage) r).nesting ≠ .inside m 0 := by
  induction numbered generalizing r with
  | nil => exact hr m
  | cons line numbered ih =>
    rw [List.foldl_cons]
    apply ih
    intro m'
    rw [Reading.nesting_push]
    exact Nesting.step_ne_inside_zero _ _ m'

theorem messages_push_nil {isMessage : Text → Bool} {r : Reading}
    (hr : ∀ m, r.nesting ≠ .inside m 0) (n : Nat) :
    (r.push isMessage ([], n)).messages = r.messages := by
  obtain ⟨nesting, fields, messages⟩ := r
  cases nesting with
  | outside => rfl
  | inside m d =>
    have still : d + braceBalance (trim []) ≠ 0 := by
      have : d ≠ 0 := fun zero => hr m (by rw [zero])
      simpa [trim, trimStart, trimEnd, braceBalance] using this
    rw [Reading.push_body still]

theorem readMessages_eq : readMessages content enums rules =
    (Reading.readFrom (isMessageType (messageNames content) enums rules) (trimmedLines content) 0
      {}).messages := by
  obtain ⟨extra, hextra, eq⟩ := trimmedLines_eq content
  rw [readMessages, foldl_push_trim, Reading.readFrom, eq, List.drop_zero, List.zipIdx_append,
    List.foldl_append]
  rcases hextra with rfl | rfl
  · rfl
  · rw [List.zipIdx_singleton, List.foldl_cons, List.foldl_nil,
      messages_push_nil (nesting_foldl_push _ (by simp))]

/-- The reader keeps what the spans of a schema say: its lines have spans in exactly one way, and
each message has the fields of its last span. -/
theorem find?_readMessages : ∃ spans, Spans (trimmedLines content) 0 spans ∧
    (∀ other, Spans (trimmedLines content) 0 other → other = spans) ∧
      ∀ m, (readMessages content enums rules).find? m =
        (spans.filter fun s => s.message = m).getLast?.map
          (Span.fields (trimmedLines content) enums rules) := by
  obtain ⟨spans, hspans⟩ := exists_spans (trimmedLines content) 0
  refine ⟨spans, hspans, fun other hother => hother.unique hspans, fun m => ?_⟩
  rw [readMessages_eq, messages_readFrom (finds_trimmedLines content enums rules) hspans
    (Nat.zero_le _) rfl, find?_foldl_insert]
  exact Option.or_none

end Reader
end LazyFields.Schema
