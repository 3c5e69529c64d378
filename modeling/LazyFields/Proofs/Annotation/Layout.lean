import LazyFields.Config.Basic
import LazyFields.Proofs.Annotation.Rewriting
import LazyFields.Proofs.Schema.SpanReading
import LazyFields.Proofs.Text.LineEnds

/-!
# The layout of a schema

What a schema says is said by its lines without the blanks around them, and empty lines at its end
say nothing.  Schemas that agree so far are read alike and marked on the same lines.  A schema
whose line feeds are preceded by carriage returns is marked as it would be without them.
-/
namespace LazyFields
open Text

namespace Schema

def paddedLines (content : Text) (n : Nat) : List Text :=
  trimmedLines content ++ List.replicate n []

/-- The schemas have the same lines but for the blanks around them and for empty lines at the
end. -/
def SameLines (s t : Text) : Prop := ∃ a b, paddedLines s a = paddedLines t b

theorem exists_paddedLines_eq (content : Text) (n : Nat) :
    ∃ k, paddedLines content n = (lines content).map trim ++ List.replicate k [] := by
  obtain ⟨extra, hextra, eq⟩ := trimmedLines_eq content
  rw [paddedLines, eq, List.append_assoc]
  rcases hextra with rfl | rfl
  · exact ⟨n, rfl⟩
  · exact ⟨n + 1, rfl⟩

section Reading
variable (content : Text) (n : Nat)

theorem filterMap_paddedLines {α : Type} {f : Text → Option α} (empty : f [] = none) :
    (lines content).filterMap (fun line => f (trim line)) =
      (paddedLines content n).filterMap f := by
  obtain ⟨k, eq⟩ := exists_paddedLines_eq content n
  have nothing : (List.replicate k ([] : Text)).filterMap f = [] := by
    rw [List.filterMap_eq_nil_iff]
    intro line hline
    rw [List.eq_of_mem_replicate hline, empty]
  rw [eq, List.filterMap_append, nothing, List.append_nil, List.filterMap_map]
  rfl

theorem enumNames_eq :
    enumNames content = .ofList ((paddedLines content n).filterMap enumOpener?) :=
  congrArg NameSet.ofList (filterMap_paddedLines content n rfl)

theorem messageNames_eq :
    messageNames content = .ofList ((paddedLines content n).filterMap messageOpener?) :=
  congrArg NameSet.ofList (filterMap_paddedLines content n rfl)

theorem messages_readFrom_paddedLines (enums : NameSet) (rules : NamingRules) :
    readMessages content enums rules =
      (Reading.readFrom (isMessageType (messageNames content) enums rules)
        (paddedLines content n) 0 {}).messages := by
  rw [readMessages_eq]
  induction n with
  | zero => rw [paddedLines, List.replicate_zero, List.append_nil]
  | succ n ih =>
    -- no walk stands in a message at depth zero, so an empty line closes nothing
    have longer : paddedLines content (n + 1) = paddedLines content n ++ [[]] := by
      rw [paddedLines, List.replicate_succ', ← List.append_assoc, paddedLines]
    rw [ih, Reading.readFrom, Reading.readFrom, longer, List.drop_zero, List.drop_zero,
      List.zipIdx_append, List.foldl_append, List.zipIdx_singleton, List.foldl_cons,
      List.foldl_nil, messages_push_nil (nesting_foldl_push _ (by simp))]

end Reading

theorem SameLines.read_eq {s t : Text} (h : SameLines s t) (rules : NamingRules) :
    Model.read s rules = Model.read t rules := by
  obtain ⟨a, b, same⟩ := h
  have enums : enumNames s = enumNames t := by rw [enumNames_eq s a, enumNames_eq t b, same]
  have declared : messageNames s = messageNames t := by
    rw [messageNames_eq s a, messageNames_eq t b, same]
  have messages : readMessages s (enumNames s) rules = readMessages t (enumNames t) rules := by
    rw [messages_readFrom_paddedLines s a, messages_readFrom_paddedLines t b, enums, declared, same]
  rw [Model.read, Model.read, enums, ← messages, enums]

theorem Assigns.exists_append {type name t : Text} (h : Assigns type name t) :
    ∃ body, t = type ++ body := by
  obtain ⟨-, -, -, -⟩ := h
  simp only [List.append_assoc, List.append_cancel_left_eq, exists_eq']

theorem declares_trim_iff {type field line : Text} (htype : Row isWord type) :
    Declares type field [] (trim line) ↔ ∃ tail, Blank tail ∧ Declares type field tail line := by
  constructor
  · intro declares
    obtain ⟨lead, tail, hlead, htail, ht⟩ := exists_trim line
    generalize trim line = core at declares ht
    obtain ⟨hinner, hfront, hgap⟩ := declares
    rename_i inner front gap
    refine ⟨tail, htail, ?_⟩
    have whole : Declares type field tail ((lead ++ inner) ++ (front ++ (gap ++ ';' :: tail))) :=
      .intro (blank_append.2 ⟨hlead, hinner⟩) hfront hgap
    rw [ht]
    simpa using whole
  · rintro ⟨tail, htail, ⟨hlead, hfront, hgap⟩⟩
    rename_i lead front gap
    obtain ⟨body, begins⟩ := hfront.exists_append
    have start : ∀ c, front.head? = some c → isBlank c = false := by
      intro c hc
      rw [begins] at hc
      exact isBlank_eq_false_of_isWord (htype.head? hc)
    have visible : ¬Blank front := by
      have shown := htype.not_blank fun c => isBlank_eq_false_of_isWord
      simp [begins, shown]
    have ending : trimEnd [';'] = [';'] := by decide
    have core : trim (front ++ (gap ++ [';'])) = front ++ (gap ++ [';']) := by
      have semicolon : ¬Blank [';'] := by decide
      rw [trim_append visible (by simp [semicolon]), trimStart_eq_self start,
        trimEnd_append semicolon, ending]
    have split : lead ++ (front ++ (gap ++ ';' :: tail)) =
        lead ++ (front ++ (gap ++ [';'])) ++ tail := by simp
    rw [split, trim_append_of_blank hlead htail, core]
    exact .intro blank_nil hfront hgap

end Schema

open Schema

section Marking
variable {c : Candidates} {i : Nat}

/-- Of some trimmed lines, line `i` stands directly in the body of a message, carries no marker,
and is the declaration of a candidate. -/
def Markable (c : Candidates) (ls : List Text) (i : Nat) : Prop :=
  ∃ m line, (Nesting.trace .outside ls)[i]? = some (.body 1, .inside m 1) ∧ ls[i]? = some line ∧
    holds lazyMarker line = false ∧
      ∃ type field, (m, field) ∈ c ∧ Row isWord type ∧ Declares type field [] line

theorem ne_nil_of_declares {type field rest line : Text} (h : Declares type field rest line) :
    line ≠ [] := by
  obtain ⟨-, -, -⟩ := h
  simp

theorem markable_append_replicate (ls : List Text) (n : Nat) :
    Markable c (ls ++ List.replicate n []) i ↔ Markable c ls i := by
  by_cases hi : i < ls.length
  · have place : (Nesting.trace .outside (ls ++ List.replicate n []))[i]? =
        (Nesting.trace .outside ls)[i]? := by
      rw [Nesting.trace_append, List.getElem?_append_left (by rwa [Nesting.length_trace])]
    rw [Markable, Markable, place, List.getElem?_append_left hi]
  · constructor
    · rintro ⟨m, line, -, hline, -, type, field, -, -, declares⟩
      rw [List.getElem?_append_right (by omega)] at hline
      rw [List.eq_of_mem_replicate (List.mem_of_getElem? hline)] at declares
      exact absurd rfl (ne_nil_of_declares declares)
    · rintro ⟨m, line, -, hline, -⟩
      exact absurd (List.getElem?_eq_some_iff.1 hline).1 hi

/-- The rewritten lines can be told from the trimmed lines. -/
theorem rewritten_iff_markable {content : Text} (n : Nat) :
    Rewritten content c i ↔ Markable c (paddedLines content n) i := by
  obtain ⟨k, eq⟩ := exists_paddedLines_eq content n
  rw [eq, markable_append_replicate, rewritten_iff]
  constructor
  · rintro ⟨m, line, hbody, hline, unmarked, type, field, tail, hfield, htype, htail, declares⟩
    refine ⟨m, trim line, hbody, by rw [List.getElem?_map, hline]; rfl, ?_, type, field, hfield,
      htype, (declares_trim_iff htype).2 ⟨tail, htail, declares⟩⟩
    rwa [holds_lazyMarker_trim]
  · rintro ⟨m, core, hbody, hcore, unmarked, type, field, hfield, htype, declares⟩
    rw [List.getElem?_map, Option.map_eq_some_iff] at hcore
    obtain ⟨line, hline, rfl⟩ := hcore
    rw [holds_lazyMarker_trim] at unmarked
    obtain ⟨tail, htail, whole⟩ := (declares_trim_iff htype).1 declares
    exact ⟨m, line, hbody, hline, unmarked, type, field, tail, hfield, htype, htail, whole⟩

theorem Schema.SameLines.rewritten_iff {s t : Text} (h : SameLines s t) :
    Rewritten s c i ↔ Rewritten t c i := by
  obtain ⟨a, b, same⟩ := h
  rw [rewritten_iff_markable a, rewritten_iff_markable b, same]

theorem Schema.SameLines.changes_eq {s t : Text} (h : SameLines s t) :
    (annotate s c).changes = (annotate t c).changes := by
  have lines : {i | Rewritten s c i} = {i | Rewritten t c i} := Set.ext fun _ => h.rewritten_iff
  rw [← ncard_rewritten, lines, ncard_rewritten]

end Marking

section LineEnds

theorem mark?_crlf {fields : NameSet} {line p : Text} (inside : '\n' ∉ line) (bare : '\r' ∉ line)
    (hp : p = line ∨ p = line ++ ['\n']) :
    mark? fields (crlf p) = (mark? fields p).map crlf := by
  obtain ⟨hline, hline', hend⟩ := divideEnd_crlf inside bare hp
  have marker : holds lazyMarker (crlf p) = holds lazyMarker p := by
    rw [← holds_lazyMarker_line, hline', ← hline, holds_lazyMarker_line]
  simp only [mark?, marker, hline', hend, hline]
  split
  · rfl
  · cases hbefore : beforeSemicolon? line with
    | none => rfl
    | some parts =>
      obtain ⟨front, gap⟩ := parts
      simp only
      split
      · obtain ⟨⟨tail, rfl, -, -⟩, -⟩ := beforeSemicolon?_eq_some_iff.1 hbefore
        have unbroken : '\n' ∉ front ++ ' ' :: lazyMarker ++ gap ++ [';'] := by
          have noMarker : '\n' ∉ lazyMarker := by decide
          simp only [List.mem_append, List.mem_cons, not_or] at inside ⊢
          exact ⟨⟨⟨inside.1, by decide, noMarker⟩, inside.2.1⟩, by decide, by simp⟩
        have split : ∀ lineEnd, front ++ ' ' :: lazyMarker ++ gap ++ ';' :: lineEnd =
            (front ++ ' ' :: lazyMarker ++ gap ++ [';']) ++ lineEnd := by simp
        rw [Option.map_some, split (crlf _), split (divideEnd p).2, crlf_append,
          crlf_eq_self unbroken]
      · rfl

theorem markPieces_map_crlf (c : Candidates) (here : Nesting) {ps : List Text} (cut : Cut ps)
    (bare : ∀ p ∈ ps, '\r' ∉ p) : markPieces c here (ps.map crlf) =
      (markPieces c here ps).map fun row => (crlf row.1, row.2.map crlf) := by
  have pieces : ∀ p ∈ ps, trim (crlf p) = trim p ∧
      ∀ role nesting, markAt? c role nesting (crlf p) = (markAt? c role nesting p).map crlf := by
    intro p hmem
    obtain ⟨line, inside, hp⟩ := cut.exists_line hmem
    have noReturn : '\r' ∉ line := by
      intro h
      rcases hp with rfl | rfl
      · exact bare _ hmem h
      · exact bare _ hmem (List.mem_append_left _ h)
    obtain ⟨hline, hline', -⟩ := divideEnd_crlf inside noReturn hp
    refine ⟨by rw [← trim_divideEnd, hline', ← hline, trim_divideEnd], fun role nesting => ?_⟩
    unfold markAt?
    split
    · split
      · split
        · exact mark?_crlf inside noReturn hp
        · rfl
      · rfl
    · rfl
  clear cut bare
  induction ps generalizing here with
  | nil => rfl
  | cons p ps ih =>
    obtain ⟨trimmed, marked⟩ := pieces p List.mem_cons_self
    have rest := fun next => ih next fun q hq => pieces q (List.mem_cons_of_mem _ hq)
    simp only [List.map_cons, markPieces, trimmed, marked, rest]

theorem annotate_crlf {s : Text} (c : Candidates) (bare : '\r' ∉ s) :
    annotate (crlf s) c = ⟨crlf (annotate s c).text, (annotate s c).changes⟩ := by
  have bareAll : ∀ p ∈ pieces s, '\r' ∉ p := by
    intro p hp h
    apply bare
    rw [← flatten_pieces s]
    exact List.mem_flatten_of_mem hp h
  have rows := markPieces_map_crlf c .outside (cut_pieces s) bareAll
  rw [← pieces_crlf] at rows
  simp only [annotate, rows, List.flatMap_map, List.countP_map, crlf_flatMap]
  congr 1
  · apply List.flatMap_congr
    intro row _
    cases row.2 <;> rfl
  · apply List.countP_congr
    intro row _
    cases hrow : row.2 <;> simp [hrow]

end LineEnds

/-- The layout of a schema does not matter.  Schemas with the same lines but for the blanks around
them have the same model, with the same numbers of lines, and the same lines of both are rewritten,
as many as are reported.  And to put a carriage return before each line feed of a schema that has
none, and to annotate it, is the same in either order. -/
theorem layout_irrelevant (rules : NamingRules) (c : Candidates) :
    (∀ s t, SameLines s t → Model.read s rules = Model.read t rules ∧
      (annotate s c).changes = (annotate t c).changes ∧
        ∀ i, Rewritten s c i ↔ Rewritten t c i) ∧
    ∀ s, '\r' ∉ s → annotate (crlf s) c = ⟨crlf (annotate s c).text, (annotate s c).changes⟩ :=
  ⟨fun _ _ same => ⟨same.read_eq rules, same.changes_eq, fun _ => same.rewritten_iff⟩,
    fun _ bare => annotate_crlf c bare⟩

def oneField : Text := "message AProto \x7b\n  BProto b = 1;\n\x7d\n".toList

/-- The same lines with other blanks, other line ends, and no line feed at the end. -/
def oneFieldSpread : Text := "\tmessage AProto \x7b \r\nBProto b = 1;\u00A0\r\n  \x7d".toList

/-- The field is read and marked in both, and carriage returns may be put in before or after. -/
theorem layout_of_oneField :
    SameLines oneField oneFieldSpread ∧
    (Model.read oneFieldSpread ({} : NamingConfig).rules).fields? "AProto".toList =
      some [⟨"b".toList, "BProto".toList, 1, 2⟩] ∧
    Rewritten oneFieldSpread (.ofList [("AProto".toList, "b".toList)]) 1 ∧
    (annotate oneFieldSpread (.ofList [("AProto".toList, "b".toList)])).changes = 1 ∧
    '\r' ∉ oneField ∧
    (annotate (crlf oneField) (.ofList [("AProto".toList, "b".toList)])).text =
      crlf "message AProto \x7b\n  BProto b = 1 [lazy = true];\n\x7d\n".toList := by
  obtain ⟨alike, commutes⟩ :=
    layout_irrelevant ({} : NamingConfig).rules (.ofList [("AProto".toList, "b".toList)])
  have same : SameLines oneField oneFieldSpread := ⟨0, 1, by decide +kernel⟩
  have bare : '\r' ∉ oneField := by decide
  obtain ⟨model, changes, rewritten⟩ := alike _ _ same
  have fields : (Model.read oneField ({} : NamingConfig).rules).fields? "AProto".toList =
      some [⟨"b".toList, "BProto".toList, 1, 2⟩] := by decide +kernel
  have marked : Rewritten oneField (.ofList [("AProto".toList, "b".toList)]) 1 := by decide +kernel
  have once : annotate oneField (.ofList [("AProto".toList, "b".toList)]) =
      ⟨"message AProto \x7b\n  BProto b = 1 [lazy = true];\n\x7d\n".toList, 1⟩ := by
    decide +kernel
  refine ⟨same, ?_, (rewritten 1).1 marked, ?_, bare, ?_⟩
  · rw [← model, fields]
  · rw [← changes, once]
  · rw [commutes _ bare, once]

end LazyFields
