import LazyFields.Proofs.Annotation.Rewriting

/-!
# What an annotation edits

An annotation inserts the marker and edits nothing else.  A line is kept, or it ends with a digit
and a semicolon, with blanks at most around the semicolon: then the marker is put behind the digit
and the blanks behind the semicolon are dropped.  However a candidate is found on a line, and
whichever of several is, the line becomes the same.  Each marked line brings one marker.
-/
namespace LazyFields
open Text Schema

/-- A line that is the declaration of a field and nothing else, divided into the type with the
blanks around it, the name with its ordinal, and the semicolon with the blanks before it.  Only
blanks stand behind. -/
inductive Divided (field : Text) : (typed assigned stop line : Text) → Prop
  | intro {lead type sep before after digits gap tail : Text} (hlead : Blank lead)
      (htype : Row isWord type) (hsep : Row isBlank sep) (hbefore : Blank before)
      (hafter : Blank after) (hdigits : Row isDecimalDigit digits) (hgap : Blank gap)
      (htail : Blank tail) :
      Divided field (lead ++ type ++ sep) (field ++ before ++ '=' :: (after ++ digits))
        (gap ++ [';'])
        (lead ++ type ++ sep ++ (field ++ before ++ '=' :: (after ++ digits)) ++ (gap ++ [';']) ++
          tail)

/-- The second piece is the first one with the marker between a digit and the blanks before the
last semicolon, and without the blanks behind it. -/
structure Insertion (p q front gap tail lineEnd : Text) : Prop where
  digit : ∃ d, front.getLast? = some d ∧ isDecimalDigit d = true
  gap_blank : Blank gap
  tail_blank : Blank tail
  ending : lineEnd = [] ∨ lineEnd = ['\n'] ∨ lineEnd = ['\r', '\n']
  divided : divideEnd p = (front ++ gap ++ ';' :: tail, lineEnd)
  whole : p = front ++ gap ++ ';' :: tail ++ lineEnd
  unmarked : holds lazyMarker p = false
  marked : q = front ++ ' ' :: lazyMarker ++ gap ++ ';' :: lineEnd

section Piece
variable {field line p new : Text} {fields : NameSet}

theorem exists_divided_iff : (∃ typed assigned stop, Divided field typed assigned stop line) ↔
    ∃ type tail, Row isWord type ∧ Blank tail ∧ Declares type field tail line := by
  constructor
  · rintro ⟨_, _, _, ⟨hlead, htype, hsep, hbefore, hafter, hdigits, hgap, htail⟩⟩
    rename_i lead type sep before after digits gap tail
    refine ⟨type, tail, htype, htail, ?_⟩
    have declares : Declares type field tail (lead ++ (type ++ sep ++ field ++ before ++
        '=' :: (after ++ digits) ++ (gap ++ ';' :: tail))) :=
      .intro hlead (.intro hsep hbefore hafter hdigits) hgap
    simpa using declares
  · rintro ⟨type, tail, htype, htail, ⟨hlead, ⟨hsep, hbefore, hafter, hdigits⟩, hgap⟩⟩
    have divided : Divided field _ _ _ _ :=
      .intro hlead htype hsep hbefore hafter hdigits hgap htail
    exact ⟨_, _, _, by simpa using divided⟩

/-- However a candidate divides a line, the marker is put between its ordinal and the semicolon. -/
theorem mark?_of_divided {typed assigned stop : Text} (hfield : field ∈ fields)
    (unmarked : holds lazyMarker p = false)
    (h : Divided field typed assigned stop (divideEnd p).1) :
    mark? fields p =
      some (typed ++ assigned ++ ' ' :: lazyMarker ++ stop ++ (divideEnd p).2) := by
  generalize hline : (divideEnd p).1 = line at h
  obtain ⟨hlead, htype, hsep, hbefore, hafter, hdigits, hgap, htail⟩ := h
  rename_i lead type sep before after digits gap tail
  have declared : declaresField field
      (lead ++ (type ++ sep ++ field ++ before ++ '=' :: (after ++ digits))) = true :=
    declaresField_iff.2 ⟨lead, type, _, rfl, hlead, htype, .intro hsep hbefore hafter hdigits⟩
  refine mark?_eq_some_iff.2
    ⟨unmarked, _, gap, tail, ?_, hgap, htail, ⟨field, hfield, declared⟩, ?_⟩
  · rw [hline]
    simp
  · simp

theorem exists_insertion_of_mark? (h : mark? fields p = some new) :
    ∃ front gap tail lineEnd, Insertion p new front gap tail lineEnd := by
  obtain ⟨unmarked, front, gap, tail, hline, hgap, htail, ⟨field, -, declared⟩, rfl⟩ :=
    mark?_eq_some_iff.1 h
  have divided : divideEnd p = (front ++ gap ++ ';' :: tail, (divideEnd p).2) := by
    rw [List.append_assoc, ← hline]
  have whole := divideEnd_append p
  rw [hline] at whole
  exact ⟨front, gap, tail, (divideEnd p).2,
    { digit := exists_digit_of_declaresField declared
      gap_blank := hgap
      tail_blank := htail
      ending := divideEnd_snd p
      divided := divided
      whole := by simpa using whole.symm
      unmarked := unmarked
      marked := rfl }⟩

end Piece

section Counts
variable {content : Text} {c : Candidates}

theorem length_pieces_annotate (content : Text) (c : Candidates) :
    (pieces (annotate content c).text).length = (pieces content).length := by
  rw [pieces_annotate, List.length_map, ← List.length_map Prod.fst, map_fst_markPieces]

theorem count_annotate (content : Text) (c : Candidates) :
    (annotate content c).text.count '\n' = content.count '\n' := by
  have rows : List.Forall₂ (fun p q => p.count '\n' = q.count '\n') (pieces content)
      (pieces (annotate content c).text) := by
    rw [pieces_annotate]
    refine forall₂_outcome (R := fun p q => p.count '\n' = q.count '\n') (fun p => rfl)
      (fun p hp fields new hmark => ?_) c .outside
    exact (sameEnd_of_mark? hmark ((cut_pieces content).not_mem_line hp)).count_eq
  have counts : (pieces content).map (List.count '\n') =
      (pieces (annotate content c).text).map (List.count '\n') :=
    List.forall₂_eq_eq_eq ▸ List.forall₂_map_left_iff.2 (List.forall₂_map_right_iff.2 rows)
  have total : ∀ t : Text, t.count '\n' = ((pieces t).map (List.count '\n')).sum := by
    intro t
    rw [← List.count_flatten, flatten_pieces]
  rw [total, total, counts]

theorem countP_outcome (c : Candidates) (role : LineRole) (nesting : Nesting) (p : Text) :
    (if holds lazyMarker (outcome (p, markAt? c role nesting p)) then 1 else 0) =
      (if holds lazyMarker p then 1 else 0) +
        if (markAt? c role nesting p).isSome then 1 else 0 := by
  cases hmark : markAt? c role nesting p with
  | none => rfl
  | some new =>
    obtain ⟨m, depth, fields, -, -, -, hnew⟩ := markAt?_eq_some_iff.1 hmark
    have before := (mark?_eq_some_iff.1 hnew).1
    have after := holds_of_mark? hnew
    simp [outcome, before, after]

theorem countP_holds_markPieces (c : Candidates) (here : Nesting) (ps : List Text) :
    ((markPieces c here ps).map outcome).countP (holds lazyMarker) =
      ps.countP (holds lazyMarker) + (markPieces c here ps).countP (·.2.isSome) := by
  induction ps generalizing here with
  | nil => rfl
  | cons p ps ih =>
    have first := countP_outcome c (here.step (trim p)).1 (here.step (trim p)).2 p
    have rest := ih (here.step (trim p)).2
    simp only [markPieces, List.map_cons, List.countP_cons]
    omega

end Counts

/-- What an annotation makes of line `i` of a schema: it is kept, or the marker is inserted in it,
in the one way in which any of the candidates can be found on it. -/
structure LineEdit (content : Text) (c : Candidates) (i : Nat) (p q : Text) : Prop where
  edit : q = p ∨ ∃ front gap tail lineEnd, Insertion p q front gap tail lineEnd
  edited_iff : q ≠ p ↔ ∃ m, InBody content i m ∧ holds lazyMarker p = false ∧
    ∃ field, (m, field) ∈ c ∧
      ∃ typed assigned stop, Divided field typed assigned stop (divideEnd p).1
  any_candidate : ∀ m field typed assigned stop, InBody content i m →
    holds lazyMarker p = false → (m, field) ∈ c →
    Divided field typed assigned stop (divideEnd p).1 →
      q = typed ++ assigned ++ ' ' :: lazyMarker ++ stop ++ (divideEnd p).2
  kept_of_marked : holds lazyMarker p = true → q = p

section Line
variable {content p q : Text} {c : Candidates} {i : Nat}

theorem ne_iff_rewritten (hp : (pieces content)[i]? = some p)
    (hq : (pieces (annotate content c).text)[i]? = some q) : q ≠ p ↔ Rewritten content c i := by
  rw [Rewritten, hp, hq, Ne, Ne, Option.some.injEq]

/-- A line becomes another one exactly when it stands directly in the body of a message, carries
no marker, and a candidate of the message is found on it. -/
theorem ne_iff_divided (hp : (pieces content)[i]? = some p)
    (hq : (pieces (annotate content c).text)[i]? = some q) : q ≠ p ↔
      ∃ m, InBody content i m ∧ holds lazyMarker p = false ∧ ∃ field, (m, field) ∈ c ∧
        ∃ typed assigned stop, Divided field typed assigned stop (divideEnd p).1 := by
  rw [ne_iff_rewritten hp hq, rewritten_iff]
  simp only [exists_divided_iff]
  constructor
  · rintro ⟨m, line, hbody, hline, unmarked, type, field, tail, hfield, htype, htail, declares⟩
    obtain rfl := Option.some.inj ((getElem?_lines hp).symm.trans hline)
    rw [holds_lazyMarker_line] at unmarked
    exact ⟨m, hbody, unmarked, field, hfield, type, tail, htype, htail, declares⟩
  · rintro ⟨m, hbody, unmarked, field, hfield, type, tail, htype, htail, declares⟩
    rw [← holds_lazyMarker_line] at unmarked
    exact ⟨m, _, hbody, getElem?_lines hp, unmarked, type, field, tail, hfield, htype, htail,
      declares⟩

theorem exists_insertion_of_ne (hp : (pieces content)[i]? = some p)
    (hq : (pieces (annotate content c).text)[i]? = some q) (h : q ≠ p) :
    ∃ front gap tail lineEnd, Insertion p q front gap tail lineEnd := by
  obtain ⟨p', m, fields, new, hp', hbody, hfields, hnew⟩ :=
    rewritten_iff_mark?.1 ((ne_iff_rewritten hp hq).1 h)
  obtain rfl := Option.some.inj (hp.symm.trans hp')
  have out := getElem?_pieces_of_mark? hp hbody hfields hnew
  obtain rfl := Option.some.inj (hq.symm.trans out)
  exact exists_insertion_of_mark? hnew

theorem lineEdit (hp : (pieces content)[i]? = some p)
    (hq : (pieces (annotate content c).text)[i]? = some q) : LineEdit content c i p q where
  edit := or_iff_not_imp_left.2 (exists_insertion_of_ne hp hq)
  edited_iff := ne_iff_divided hp hq
  any_candidate := by
    rintro m field typed assigned stop hbody unmarked ⟨fields, hfields, hfield⟩ divided
    have out := getElem?_pieces_of_mark? hp hbody hfields (mark?_of_divided hfield unmarked divided)
    exact Option.some.inj (hq.symm.trans out)
  kept_of_marked := by
    intro marked
    by_contra other
    obtain ⟨-, -, unmarked, -⟩ := (ne_iff_divided hp hq).1 other
    rw [marked] at unmarked
    contradiction

end Line

/-- An annotation edits nothing but the marker.  It keeps the number of lines, and each line is
kept or gets the marker inserted.  The lines that are not kept are those directly in the body of a
message, without a marker, on which a candidate of the message is found.  They are counted, and
each brings one more line with a marker. -/
theorem edits_only_marker (content : Text) (c : Candidates) :
    (splitOn '\n' (annotate content c).text).length = (splitOn '\n' content).length ∧
    (pieces (annotate content c).text).length = (pieces content).length ∧
    (∀ i p, (pieces content)[i]? = some p →
      ∃ q, (pieces (annotate content c).text)[i]? = some q ∧ LineEdit content c i p q) ∧
    {i | Rewritten content c i}.ncard = (annotate content c).changes ∧
    (pieces (annotate content c).text).countP (holds lazyMarker) =
      (pieces content).countP (holds lazyMarker) + (annotate content c).changes := by
  refine ⟨?_, length_pieces_annotate content c, fun i p hp => ?_, ncard_rewritten content c, ?_⟩
  · rw [length_splitOn, length_splitOn, count_annotate]
  · obtain ⟨r, -, hq⟩ := getElem?_pieces_annotate (c := c) hp
    exact ⟨_, hq, lineEdit hp hq⟩
  · rw [pieces_annotate]
    exact countP_holds_markPieces c .outside (pieces content)

/-- A line on which two candidates can be found, and a line that carries the marker. -/
def twiceFound : Text :=
  "message A \x7b\r\n\tB  b = 1 ; \r\n  C c = 2 [lazy = true];\n\x7d".toList

/-- The candidates that are found on the first line, one of them with a blank before its name. -/
def twiceNamed : Candidates := .ofList [("A".toList, "b".toList), ("A".toList, " b".toList)]

/-- The first of these lines gets one marker and keeps its line end, and the second is kept. -/
theorem edits_of_twiceFound :
    (pieces (annotate twiceFound twiceNamed).text)[1]? =
      some "\tB  b = 1 [lazy = true] ;\r\n".toList ∧
    (∃ front gap tail lineEnd, Insertion "\tB  b = 1 ; \r\n".toList
      "\tB  b = 1 [lazy = true] ;\r\n".toList front gap tail lineEnd) ∧
    (pieces (annotate twiceFound twiceNamed).text)[2]? =
      some "  C c = 2 [lazy = true];\n".toList := by
  obtain ⟨-, -, edits, -, -⟩ := edits_only_marker twiceFound twiceNamed
  have first : (pieces twiceFound)[1]? = some "\tB  b = 1 ; \r\n".toList := by decide +kernel
  have second : (pieces twiceFound)[2]? = some "  C c = 2 [lazy = true];\n".toList := by
    decide +kernel
  have out : (pieces (annotate twiceFound twiceNamed).text)[1]? =
      some "\tB  b = 1 [lazy = true] ;\r\n".toList := by decide +kernel
  obtain ⟨q, hq, edited⟩ := edits 1 _ first
  obtain rfl := Option.some.inj (hq.symm.trans out)
  obtain ⟨kept, hkept, marked⟩ := edits 2 _ second
  obtain rfl := marked.kept_of_marked (by decide +kernel)
  exact ⟨out, edited.edit.resolve_left (by decide), hkept⟩

end LazyFields
