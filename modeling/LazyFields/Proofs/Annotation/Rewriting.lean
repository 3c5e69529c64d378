import LazyFields.Proofs.Annotation.Line
import LazyFields.Proofs.Selection

/-!
# Rewritten lines

The annotation rewrites a schema line by line: its result has the same number of lines, each of
the same shape as the one it stands for, so both texts are walked through alike.  A line is
rewritten exactly when it stands directly in the body of a message, carries no marker, and
declares a candidate of the message.  Once rewritten it is left alone, and so an annotated schema
has nothing left to mark for any of the candidates.
-/
namespace LazyFields
open Text Schema

/-- Line `i`, counted from 0, is another one after the annotation. -/
def Rewritten (content : Text) (c : Candidates) (i : Nat) : Prop :=
  (pieces (annotate content c).text)[i]? ≠ (pieces content)[i]?

instance (content : Text) (c : Candidates) (i : Nat) : Decidable (Rewritten content c i) :=
  inferInstanceAs (Decidable (_ ≠ _))

theorem getElem?_lines {t p : Text} {i : Nat} (h : (pieces t)[i]? = some p) :
    (lines t)[i]? = some (divideEnd p).1 := by
  simp [lines_eq_map_pieces, h]

theorem exists_piece {t line : Text} {i : Nat} (h : (lines t)[i]? = some line) :
    ∃ p, (pieces t)[i]? = some p ∧ (divideEnd p).1 = line := by
  rw [lines_eq_map_pieces, List.getElem?_map, Option.map_eq_some_iff] at h
  exact h

theorem holds_lazyMarker_line (p : Text) :
    holds lazyMarker (divideEnd p).1 = holds lazyMarker p := by
  rw [← holds_lazyMarker_trim, trim_divideEnd, holds_lazyMarker_trim]

theorem markPieces_eq_zipWith (c : Candidates) (here : Nesting) (ps : List Text) :
    markPieces c here ps =
      List.zipWith (fun p r => (p, markAt? c r.1 r.2 p)) ps (here.trace (ps.map trim)) := by
  induction ps generalizing here with
  | nil => rfl
  | cons p ps ih => simp [markPieces, Nesting.trace, ih]

/-- Of a line directly in the body of a message, and of no other, the annotation asks whether it
declares one of the candidates. -/
theorem markAt?_eq_some_iff {c : Candidates} {role : LineRole} {nesting : Nesting}
    {p new : Text} : markAt? c role nesting p = some new ↔ ∃ m depth fields, role = .body 1 ∧
      nesting = .inside m depth ∧ c.fields? m = some fields ∧ mark? fields p = some new := by
  constructor
  · intro h
    unfold markAt? at h
    split at h
    · rename_i depth m d
      split at h
      · rename_i hdepth
        split at h
        · rename_i fields hfields
          exact ⟨m, d, fields, by rw [hdepth], rfl, hfields, h⟩
        · contradiction
      · contradiction
    · contradiction
  · rintro ⟨m, depth, fields, rfl, rfl, hfields, h⟩
    simp [markAt?, hfields, h]

theorem getElem?_markPieces (c : Candidates) (here : Nesting) {ps : List Text} {i : Nat} {p : Text}
    (h : ps[i]? = some p) : ∃ r, (here.trace (ps.map trim))[i]? = some r ∧
      (markPieces c here ps)[i]? = some (p, markAt? c r.1 r.2 p) := by
  have hlt : i < (here.trace (ps.map trim)).length := by
    rw [Nesting.length_trace, List.length_map]
    exact (List.getElem?_eq_some_iff.1 h).1
  refine ⟨_, List.getElem?_eq_getElem hlt, ?_⟩
  rw [markPieces_eq_zipWith, List.getElem?_zipWith, h, List.getElem?_eq_getElem hlt]

theorem map_fst_markPieces (c : Candidates) (here : Nesting) (ps : List Text) :
    (markPieces c here ps).map Prod.fst = ps := by
  induction ps generalizing here with
  | nil => rfl
  | cons p ps ih => simp [markPieces, ih]

theorem exists_mark?_of_mem {c : Candidates} {here : Nesting} {ps : List Text}
    {row : Text × Option Text} (h : row ∈ markPieces c here ps) {new : Text}
    (hnew : row.2 = some new) : ∃ fields, mark? fields row.1 = some new := by
  induction ps generalizing here with
  | nil => simp [markPieces] at h
  | cons p ps ih =>
    rcases List.mem_cons.1 h with rfl | h
    · obtain ⟨m, depth, fields, -, -, -, hmark⟩ := markAt?_eq_some_iff.1 hnew
      exact ⟨fields, hmark⟩
    · exact ih h

def outcome (row : Text × Option Text) : Text := row.2.getD row.1

theorem forall₂_outcome {R : Text → Text → Prop} {ps : List Text} (same : ∀ p, R p p)
    (marked : ∀ p ∈ ps, ∀ fields new, mark? fields p = some new → R p new) (c : Candidates)
    (here : Nesting) : List.Forall₂ R ps ((markPieces c here ps).map outcome) := by
  have rows : ∀ row ∈ markPieces c here ps, R row.1 (outcome row) := by
    intro row hrow
    have hmem : row.1 ∈ ps := by
      rw [← map_fst_markPieces c here ps]
      exact List.mem_map_of_mem hrow
    cases hnew : row.2 with
    | none =>
      rw [outcome, hnew]
      exact same row.1
    | some new =>
      obtain ⟨fields, hmark⟩ := exists_mark?_of_mem hrow hnew
      rw [outcome, hnew]
      exact marked row.1 hmem fields new hmark
  have lift : List.Forall₂ (fun p q => R p.1 (outcome q)) (markPieces c here ps)
      (markPieces c here ps) := List.forall₂_same.2 rows
  have all := List.forall₂_map_left_iff.2 (List.forall₂_map_right_iff.2 lift)
  rwa [map_fst_markPieces] at all

theorem ne_of_mark? {fields : NameSet} {p new : Text} (h : mark? fields p = some new) :
    new ≠ p := by
  rintro rfl
  have unmarked := (mark?_eq_some_iff.1 h).1
  rw [holds_of_mark? h] at unmarked
  contradiction

section Annotated
variable {content : Text} {c : Candidates} {i : Nat}

theorem pieces_annotate (content : Text) (c : Candidates) : pieces (annotate content c).text =
    (markPieces c .outside (pieces content)).map outcome := by
  have cut : Cut ((markPieces c .outside (pieces content)).map outcome) := by
    apply (cut_pieces content).rewrite
    refine forall₂_outcome (fun p => .inl rfl) (fun p hp fields new hmark => .inr ?_) c _
    exact sameEnd_of_mark? hmark ((cut_pieces content).not_mem_line hp)
  have flat : (annotate content c).text =
      ((markPieces c .outside (pieces content)).map outcome).flatten := List.flatMap_def ..
  rw [flat, cut.pieces_flatten]

theorem sameShape_annotate (content : Text) (c : Candidates) : List.Forall₂ SameShape
    ((lines content).map trim) ((lines (annotate content c).text).map trim) := by
  rw [← map_trim_pieces, ← map_trim_pieces, List.forall₂_map_left_iff,
    List.forall₂_map_right_iff, pieces_annotate]
  exact forall₂_outcome (fun p => .refl _)
    (fun p _ fields new hmark => sameShape_of_mark? hmark) c _

theorem trace_annotate (content : Text) (c : Candidates) :
    Nesting.trace .outside ((lines (annotate content c).text).map trim) =
      Nesting.trace .outside ((lines content).map trim) :=
  Nesting.trace_congr (sameShape_annotate content c) .outside

theorem inBody_annotate {m : Text} :
    InBody (annotate content c).text i m ↔ InBody content i m := by
  rw [InBody, InBody, trace_annotate]

theorem getElem?_pieces_annotate {p : Text} (h : (pieces content)[i]? = some p) :
    ∃ r, (Nesting.trace .outside ((lines content).map trim))[i]? = some r ∧
      (pieces (annotate content c).text)[i]? = some ((markAt? c r.1 r.2 p).getD p) := by
  obtain ⟨r, hr, hrow⟩ := getElem?_markPieces c .outside h
  refine ⟨r, by rwa [map_trim_pieces] at hr, ?_⟩
  rw [pieces_annotate, List.getElem?_map, hrow]
  rfl

theorem getElem?_pieces_of_mark? {m p new : Text} {fields : NameSet}
    (hp : (pieces content)[i]? = some p) (hbody : InBody content i m)
    (hfields : c.fields? m = some fields) (hnew : mark? fields p = some new) :
    (pieces (annotate content c).text)[i]? = some new := by
  obtain ⟨r, hr, hout⟩ := getElem?_pieces_annotate (c := c) hp
  obtain rfl : r = (.body 1, .inside m 1) := Option.some.inj (hr.symm.trans hbody)
  have hmark : markAt? c (.body 1) (.inside m 1) p = some new :=
    markAt?_eq_some_iff.2 ⟨m, 1, fields, rfl, rfl, hfields, hnew⟩
  rw [hout, hmark, Option.getD_some]

theorem rewritten_iff_mark? : Rewritten content c i ↔ ∃ p m fields new,
    (pieces content)[i]? = some p ∧ InBody content i m ∧ c.fields? m = some fields ∧
      mark? fields p = some new := by
  constructor
  · intro h
    cases hp : (pieces content)[i]? with
    | none =>
      have gone : (pieces (annotate content c).text)[i]? = none := by
        rw [pieces_annotate, markPieces_eq_zipWith, List.getElem?_map, List.getElem?_zipWith, hp]
        rfl
      exact absurd (gone.trans hp.symm) h
    | some p =>
      obtain ⟨⟨role, nesting⟩, hr, hout⟩ := getElem?_pieces_annotate (c := c) hp
      cases hmark : markAt? c role nesting p with
      | none =>
        rw [hmark] at hout
        exact absurd (hout.trans hp.symm) h
      | some new =>
        obtain ⟨m, depth, fields, rfl, rfl, hfields, hnew⟩ := markAt?_eq_some_iff.1 hmark
        obtain ⟨m', hm'⟩ := Nesting.exists_inside_of_trace hr
        obtain ⟨rfl, rfl⟩ := Nesting.inside.inj hm'
        exact ⟨p, m, fields, new, rfl, hr, hfields, hnew⟩
  · rintro ⟨p, m, fields, new, hp, hbody, hfields, hnew⟩
    rw [Rewritten, getElem?_pieces_of_mark? hp hbody hfields hnew, hp]
    intro same
    exact ne_of_mark? hnew (Option.some.inj same)

/-- A line is rewritten exactly when it stands directly in the body of a message, carries no
marker, and declares a candidate of the message with a type of one word and nothing behind its
semicolon. -/
theorem rewritten_iff : Rewritten content c i ↔ ∃ m line, InBody content i m ∧
    (lines content)[i]? = some line ∧ holds lazyMarker line = false ∧
      ∃ type field tail, (m, field) ∈ c ∧ Row isWord type ∧ Blank tail ∧
        Declares type field tail line := by
  rw [rewritten_iff_mark?]
  constructor
  · rintro ⟨p, m, fields, new, hp, hbody, hfields, hnew⟩
    obtain ⟨unmarked, type, field, hfield, tail, htype, htail, declared⟩ :=
      mark?_isSome_iff.1 (Option.isSome_of_eq_some hnew)
    refine ⟨m, _, hbody, getElem?_lines hp, ?_, type, field, tail, ⟨fields, hfields, hfield⟩,
      htype, htail, declared⟩
    rwa [holds_lazyMarker_line]
  · rintro ⟨m, line, hbody, hline, unmarked, type, field, tail, ⟨fields, hfields, hfield⟩, htype,
      htail, declared⟩
    obtain ⟨p, hp, rfl⟩ := exists_piece hline
    rw [holds_lazyMarker_line] at unmarked
    obtain ⟨new, hnew⟩ := Option.isSome_iff_exists.1
      (mark?_isSome_iff.2 ⟨unmarked, type, field, hfield, tail, htype, htail, declared⟩)
    exact ⟨p, m, fields, new, hp, hbody, hfields, hnew⟩

theorem lines_of_not_rewritten (h : ¬Rewritten content c i) :
    (lines (annotate content c).text)[i]? = (lines content)[i]? := by
  rw [Rewritten, not_not] at h
  rw [lines_eq_map_pieces, lines_eq_map_pieces, List.getElem?_map, List.getElem?_map, h]

theorem marked_of_rewritten (h : Rewritten content c i) :
    ∃ line, (lines (annotate content c).text)[i]? = some line ∧ holds lazyMarker line = true := by
  obtain ⟨p, m, fields, new, hp, hbody, hfields, hnew⟩ := rewritten_iff_mark?.1 h
  refine ⟨_, getElem?_lines (getElem?_pieces_of_mark? hp hbody hfields hnew), ?_⟩
  rw [holds_lazyMarker_line]
  exact holds_of_mark? hnew

theorem rewritten_iff_row : Rewritten content c i ↔ ∃ row new,
    (markPieces c .outside (pieces content))[i]? = some row ∧ row.2 = some new := by
  constructor
  · intro h
    obtain ⟨p, m, fields, new, hp, hbody, hfields, hnew⟩ := rewritten_iff_mark?.1 h
    obtain ⟨r, hr, hrow⟩ := getElem?_markPieces c .outside hp
    rw [map_trim_pieces, hbody] at hr
    obtain rfl := Option.some.inj hr
    exact ⟨_, new, hrow, markAt?_eq_some_iff.2 ⟨m, 1, fields, rfl, rfl, hfields, hnew⟩⟩
  · rintro ⟨row, new, hi, hnew⟩ same
    have hp : (pieces content)[i]? = some row.1 := by
      rw [← map_fst_markPieces c .outside (pieces content), List.getElem?_map, hi]
      rfl
    obtain ⟨fields, hmark⟩ := exists_mark?_of_mem (List.mem_of_getElem? hi) hnew
    rw [pieces_annotate, List.getElem?_map, hi, hp, Option.map_some, outcome, hnew] at same
    exact ne_of_mark? hmark (Option.some.inj same)

theorem ncard_rewritten (content : Text) (c : Candidates) :
    {i | Rewritten content c i}.ncard = (annotate content c).changes := by
  have places : {i | Rewritten content c i} =
      ↑((markPieces c .outside (pieces content)).findIdxs (·.2.isSome)).toFinset := by
    ext i
    rw [Set.mem_ofPred_eq, List.coe_toFinset, Set.mem_ofPred_eq, rewritten_iff_row,
      List.mem_findIdxs_iff_exists_getElem_pos]
    simp [List.getElem?_eq_some_iff, Option.isSome_iff_exists]
  rw [places, Set.ncard_coe_finset, List.toFinset_card_of_nodup List.nodup_findIdxs,
    List.length_findIdxs, annotate]

theorem annotate_eq_self (h : ∀ i, ¬Rewritten content c i) : annotate content c = ⟨content, 0⟩ := by
  have kept : ∀ row ∈ markPieces c .outside (pieces content), row.2 = none := by
    intro row hrow
    by_contra some_new
    obtain ⟨new, hnew⟩ := Option.ne_none_iff_exists'.1 some_new
    obtain ⟨i, hi⟩ := List.mem_iff_getElem?.1 hrow
    exact h i (rewritten_iff_row.2 ⟨row, new, hi, hnew⟩)
  have text : (markPieces c .outside (pieces content)).flatMap (fun row => row.2.getD row.1) =
      content := by
    have first : (markPieces c .outside (pieces content)).map (fun row => row.2.getD row.1) =
        (markPieces c .outside (pieces content)).map Prod.fst :=
      List.map_congr_left fun row hrow => by rw [kept row hrow, Option.getD_none]
    rw [List.flatMap_def, first, map_fst_markPieces, flatten_pieces]
  have changes : (markPieces c .outside (pieces content)).countP (·.2.isSome) = 0 := by
    rw [List.countP_eq_zero]
    intro row hrow
    simp [kept row hrow]
  rw [annotate, text, changes]

theorem annotate_annotate_of_subset {d : Candidates} (h : d ⊆ c) (content : Text) :
    annotate (annotate content c).text d = ⟨(annotate content c).text, 0⟩ := by
  apply annotate_eq_self
  intro i hi
  obtain ⟨m, line, hbody, hline, unmarked, type, field, tail, hfield, declaration⟩ :=
    rewritten_iff.1 hi
  -- what was rewritten is marked by now, and what was not would have been rewritten with `c`
  by_cases before : Rewritten content c i
  · obtain ⟨line', hline', marked⟩ := marked_of_rewritten before
    obtain rfl : line' = line := Option.some.inj (hline'.symm.trans hline)
    rw [marked] at unmarked
    contradiction
  · rw [lines_of_not_rewritten before] at hline
    apply before
    exact rewritten_iff.2 ⟨m, line, inBody_annotate.1 hbody, hline, unmarked, type, field, tail,
      h _ hfield, declaration⟩

end Annotated
end LazyFields
