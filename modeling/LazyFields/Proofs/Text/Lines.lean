import LazyFields.Proofs.Text.Blank
import LazyFields.Text.Lines

/-!
# Cuts of a text at its line feeds

The pieces of a text are its only cut: a line feed ends every piece, the last one possibly
excepted, and stands nowhere else.  Pieces may therefore be rewritten one by one, as long as each
keeps its line end, and are found again in the text that they are put together to.
-/
namespace LazyFields.Text

/-- The texts are the pieces of the text that they are put together to. -/
inductive Cut : List Text → Prop
  | nil : Cut []
  | last {line : Text} (inside : '\n' ∉ line) (ne : line ≠ []) : Cut [line]
  | cons {line : Text} {ps : List Text} (inside : '\n' ∉ line) (rest : Cut ps) :
      Cut ((line ++ ['\n']) :: ps)

theorem Cut.pieces_flatten {ps : List Text} (h : Cut ps) : pieces ps.flatten = ps := by
  induction h with
  | nil => rfl
  | last inside ne => simpa using pieces_eq_singleton inside ne
  | cons inside rest ih => simp [pieces_append_cons inside, ih]

theorem cut_pieces (t : Text) : Cut (pieces t) := by
  induction t with
  | nil => exact .nil
  | cons c t ih =>
    simp only [pieces, List.foldr_cons] at ih ⊢
    split
    · rename_i hc
      subst hc
      have empty : '\n' ∉ ([] : Text) := List.not_mem_nil
      exact .cons empty ih
    · rename_i hc
      split
      · exact .last (by simpa using Ne.symm hc) (by simp)
      · rename_i p ps hp
        rw [hp] at ih
        cases ih with
        | last inside ne => exact .last (by simp [inside, Ne.symm hc]) (by simp)
        | @cons line _ inside rest =>
          have longer : '\n' ∉ c :: line := by simp [inside, Ne.symm hc]
          exact .cons longer rest

theorem divideEnd_of_not_mem {line : Text} (h : '\n' ∉ line) : divideEnd line = (line, []) := by
  unfold divideEnd
  split
  · rename_i hr
    exact absurd (List.mem_reverse.1 (hr ▸ List.mem_cons_self)) h
  · rename_i hr
    exact absurd (List.mem_reverse.1 (hr ▸ List.mem_cons_self)) h
  · rfl

theorem not_mem_divideEnd_lf {line : Text} (h : '\n' ∉ line) :
    '\n' ∉ (divideEnd (line ++ ['\n'])).1 := by
  have back : (line ++ ['\n']).reverse = '\n' :: line.reverse := by simp
  unfold divideEnd
  rw [back]
  split
  · rename_i hr
    have hl : line.reverse = '\r' :: _ := (List.cons.inj hr).2
    intro m
    exact h (List.mem_reverse.1 (hl ▸ List.mem_cons_of_mem _ (List.mem_reverse.1 m)))
  · rename_i hr
    rw [← (List.cons.inj hr).2]
    simpa using h
  · rename_i hr
    exact absurd rfl (hr _)

theorem Cut.not_mem_line {ps : List Text} (h : Cut ps) {p : Text} (hp : p ∈ ps) :
    '\n' ∉ (divideEnd p).1 := by
  induction h with
  | nil => simp at hp
  | last inside ne =>
    rw [List.mem_singleton.1 hp, divideEnd_of_not_mem inside]
    exact inside
  | @cons line ps inside rest ih =>
    rcases List.mem_cons.1 hp with rfl | hp
    · exact not_mem_divideEnd_lf inside
    · exact ih hp

theorem blank_divideEnd (p : Text) : Blank (divideEnd p).2 := by
  unfold divideEnd
  split
  · exact (by decide : Blank ['\r', '\n'])
  · exact (by decide : Blank ['\n'])
  · exact blank_nil

/-- Line ends are blank, so a piece and its line are the same but for blanks. -/
theorem trim_divideEnd (p : Text) : trim (divideEnd p).1 = trim p := by
  conv_rhs => rw [← divideEnd_append p]
  simpa using (trim_append_of_blank blank_nil (blank_divideEnd p) (divideEnd p).1).symm

/-- Lines and pieces are the same, one by one, but for blanks. -/
theorem map_trim_pieces (t : Text) : (pieces t).map trim = (lines t).map trim := by
  rw [lines_eq_map_pieces, List.map_map]
  exact List.map_congr_left fun p _ => (trim_divideEnd p).symm

theorem divideEnd_snd (p : Text) :
    (divideEnd p).2 = [] ∨ (divideEnd p).2 = ['\n'] ∨ (divideEnd p).2 = ['\r', '\n'] := by
  unfold divideEnd
  split
  · exact .inr (.inr rfl)
  · exact .inr (.inl rfl)
  · exact .inl rfl

/-- Two pieces are one line each, with the same line end. -/
def SameEnd (p q : Text) : Prop :=
  ∃ line line' lineEnd, p = line ++ lineEnd ∧ q = line' ++ lineEnd ∧
    '\n' ∉ line ∧ '\n' ∉ line' ∧ line' ≠ []

theorem SameEnd.count_eq {p q : Text} (h : SameEnd p q) : p.count '\n' = q.count '\n' := by
  obtain ⟨line, line', lineEnd, rfl, rfl, hline, hline', -⟩ := h
  rw [List.count_append, List.count_append, List.count_eq_zero_of_not_mem hline,
    List.count_eq_zero_of_not_mem hline']

/-- A cut whose pieces are rewritten, each with its line end kept, is a cut. -/
theorem Cut.rewrite {ps qs : List Text} (h : Cut ps)
    (same : List.Forall₂ (fun p q => p = q ∨ SameEnd p q) ps qs) : Cut qs := by
  induction h generalizing qs with
  | nil =>
    cases same
    exact .nil
  | @last line inside ne =>
    obtain _ | ⟨hpq, hrest⟩ := same
    cases hrest
    rcases hpq with rfl | ⟨a, b, e, rfl, rfl, ha, hb, hne⟩
    · exact .last inside ne
    · have he : '\n' ∉ e := fun m => inside (List.mem_append_right _ m)
      exact .last (by simp [hb, he]) (by simp [hne])
  | @cons line ps inside rest ih =>
    obtain _ | ⟨hpq, hrest⟩ := same
    rcases hpq with rfl | ⟨a, b, e, hp, rfl, ha, hb, hne⟩
    · exact .cons inside (ih hrest)
    · -- the line feed lies in the common line end, since the new line has none
      obtain ⟨f, rfl, hf⟩ : ∃ f, e = f ++ ['\n'] ∧ line = a ++ f := by
        rcases List.append_eq_append_iff.1 hp with ⟨f, rfl, hf⟩ | ⟨f, rfl, hf⟩
        · cases f with
          | nil => exact ⟨[], by simpa using hf.symm, by simp⟩
          | cons c f =>
            obtain ⟨rfl, -⟩ := List.cons.inj hf
            simp at ha
        · exact ⟨f, hf, rfl⟩
      have hf' : '\n' ∉ f := fun m => inside (hf ▸ List.mem_append_right _ m)
      rw [← List.append_assoc]
      exact .cons (by simp [hb, hf']) (ih hrest)

theorem splitOn_append_cons {mark : Char} {line : Text} (h : mark ∉ line) (t : Text) :
    splitOn mark (line ++ mark :: t) = line :: splitOn mark t := by
  induction line with
  | nil => simp [splitOn]
  | cons c line ih =>
    have hc : c ≠ mark := fun e => h (e ▸ List.mem_cons_self ..)
    have rest := ih fun m => h (List.mem_cons_of_mem _ m)
    simp only [splitOn, List.cons_append, List.foldr_cons, if_neg hc] at rest ⊢
    rw [rest]

theorem splitOn_eq_singleton {mark : Char} {line : Text} (h : mark ∉ line) :
    splitOn mark line = [line] := by
  induction line with
  | nil => rfl
  | cons c line ih =>
    have hc : c ≠ mark := fun e => h (e ▸ List.mem_cons_self ..)
    have rest := ih fun m => h (List.mem_cons_of_mem _ m)
    simp only [splitOn, List.foldr_cons, if_neg hc] at rest ⊢
    rw [rest]

theorem splitOn_ne_nil (mark : Char) (t : Text) : splitOn mark t ≠ [] := by
  cases t with
  | nil => simp [splitOn]
  | cons c t =>
    rw [splitOn, List.foldr_cons]
    split
    · simp
    · split <;> simp

/-- A text has one part more than it has marks. -/
theorem length_splitOn (mark : Char) (t : Text) : (splitOn mark t).length = t.count mark + 1 := by
  induction t with
  | nil => rfl
  | cons c t ih =>
    have ne := splitOn_ne_nil mark t
    simp only [splitOn, List.foldr_cons, List.count_cons] at ih ne ⊢
    by_cases hc : c = mark
    · simp [hc, ih]
    · rw [if_neg hc, if_neg (by simpa using hc)]
      split
      · rename_i h
        exact absurd h ne
      · rename_i p ps h
        rw [h] at ih
        exact ih

theorem intercalate_splitOn (mark : Char) (t : Text) :
    [mark].intercalate (splitOn mark t) = t := by
  induction t with
  | nil => simp [splitOn]
  | cons c t ih =>
    have ne := splitOn_ne_nil mark t
    simp only [splitOn, List.foldr_cons] at ih ne ⊢
    split
    · rename_i hc
      rw [List.intercalate_cons_of_ne_nil ne, ih, hc]
      rfl
    · split
      · rename_i h
        exact absurd h ne
      · rename_i p ps h
        rw [h] at ih
        cases ps with
        | nil => simpa using ih
        | cons q qs =>
          rw [List.intercalate_cons_cons] at ih ⊢
          simpa using ih

/-- The parts between marks are the only texts without the mark that make up the text. -/
theorem splitOn_eq_iff {mark : Char} {t : Text} {parts : List Text} :
    splitOn mark t = parts ↔
      parts ≠ [] ∧ (∀ part ∈ parts, mark ∉ part) ∧ t = [mark].intercalate parts := by
  constructor
  · rintro rfl
    exact ⟨splitOn_ne_nil mark t, fun part hpart => not_mem_of_mem_splitOn hpart,
      (intercalate_splitOn mark t).symm⟩
  · rintro ⟨ne, apart, rfl⟩
    induction parts with
    | nil => exact absurd rfl ne
    | cons part parts ih =>
      cases parts with
      | nil => simpa using splitOn_eq_singleton (apart part List.mem_cons_self)
      | cons next parts =>
        have rest := ih (by simp) fun p hp => apart p (List.mem_cons_of_mem _ hp)
        rw [List.intercalate_cons_cons, List.append_assoc, List.singleton_append,
          splitOn_append_cons (apart part List.mem_cons_self), rest]

/-- A text split at its line feeds has its pieces without their line feeds, and one more text,
which is empty, unless the last piece lacks its line feed. -/
theorem Cut.map_trim_splitOn {ps : List Text} (h : Cut ps) :
    ∃ extra, (extra = [] ∨ extra = [[]]) ∧
      (splitOn '\n' ps.flatten).map trim = ps.map trim ++ extra := by
  induction h with
  | nil => exact ⟨[[]], .inr rfl, rfl⟩
  | @last line inside ne => exact ⟨[], .inl rfl, by simp [splitOn_eq_singleton inside]⟩
  | @cons line ps inside rest ih =>
    obtain ⟨extra, hextra, tails⟩ := ih
    have ending : Blank ['\n'] := by decide
    have head : trim (line ++ ['\n']) = trim line := trim_append_of_blank blank_nil ending line
    refine ⟨extra, hextra, ?_⟩
    rw [List.flatten_cons, List.append_assoc, List.singleton_append,
      splitOn_append_cons inside, List.map_cons, tails, List.map_cons, head, List.cons_append]

/-- The text ends with a line feed, unless it is empty. -/
def Ended (t : Text) : Prop := t = [] ∨ t.getLast? = some '\n'

instance (t : Text) : Decidable (Ended t) := inferInstanceAs (Decidable (_ ∨ _))

/-- Behind a line feed the pieces of a text begin anew. -/
theorem Cut.pieces_append {ps : List Text} (h : Cut ps) (ended : Ended ps.flatten) (t : Text) :
    pieces (ps.flatten ++ t) = ps ++ pieces t := by
  induction h with
  | nil => rfl
  | last inside ne =>
    rw [List.flatten_singleton] at ended
    rcases ended with empty | ends
    · exact absurd empty ne
    · exact absurd (List.mem_of_getLast? ends) inside
  | @cons line ps inside rest ih =>
    have later : Ended ps.flatten := by
      by_cases empty : ps.flatten = []
      · exact .inl empty
      · rw [Ended, List.flatten_cons, List.getLast?_append_of_ne_nil _ empty] at ended
        exact .inr (ended.resolve_left (by simp))
    rw [List.flatten_cons, List.append_assoc, List.append_assoc, List.singleton_append,
      pieces_append_cons inside, ih later, List.cons_append]

theorem pieces_append {a : Text} (h : Ended a) (b : Text) :
    pieces (a ++ b) = pieces a ++ pieces b := by
  have joined := (cut_pieces a).pieces_append ((flatten_pieces a).symm ▸ h) b
  rwa [flatten_pieces] at joined

theorem lines_append {a : Text} (h : Ended a) (b : Text) : lines (a ++ b) = lines a ++ lines b := by
  simp only [lines_eq_map_pieces, pieces_append h, List.map_append]

end LazyFields.Text
