import LazyFields.Text

/-!
# Lines

A line ends at a line feed.  `lines` drops the line ends and `pieces` keeps them: the pieces of a
text put together are the text, and each line is a piece without its line end.
-/
namespace LazyFields.Text

/-- The lines after a beginning of a line, which is held backwards.  A carriage return right
before the line feed belongs to the line end. -/
def linesFrom (start : Text) : Text → List Text
  | [] => if start.isEmpty then [] else [start.reverse]
  | c :: t =>
    if c = '\n' then
      (match start with
        | '\r' :: line => line.reverse
        | line => line.reverse) :: linesFrom [] t
    else linesFrom (c :: start) t

/-- The lines of a text without their line ends.  A line feed at the end of the text opens no
further line. -/
def lines (t : Text) : List Text := linesFrom [] t

/-- The lines of a text with their line ends.  Only the last one may lack its line feed. -/
def pieces (t : Text) : List Text :=
  t.foldr
    (fun c ps =>
      if c = '\n' then [c] :: ps
      else match ps with
        | [] => [[c]]
        | p :: ps => (c :: p) :: ps)
    []

/-- A piece divided into its line and its line end, which is empty, a line feed, or a carriage
return and a line feed. -/
def divideEnd (piece : Text) : Text × Text :=
  match piece.reverse with
  | '\n' :: '\r' :: line => (line.reverse, ['\r', '\n'])
  | '\n' :: line => (line.reverse, ['\n'])
  | _ => (piece, [])

theorem flatten_pieces (t : Text) : (pieces t).flatten = t := by
  induction t with
  | nil => rfl
  | cons c t ih =>
    simp only [pieces, List.foldr_cons] at ih ⊢
    split
    · simp [ih]
    · split
      · rename_i h
        rw [h] at ih
        simp_all
      · rename_i h
        rw [h] at ih
        simp_all

theorem divideEnd_append (piece : Text) : (divideEnd piece).1 ++ (divideEnd piece).2 = piece := by
  unfold divideEnd
  split
  · rename_i h
    simpa using (congrArg List.reverse h).symm
  · rename_i h
    simpa using (congrArg List.reverse h).symm
  · simp

theorem pieces_append_cons {line : Text} (h : '\n' ∉ line) (t : Text) :
    pieces (line ++ '\n' :: t) = (line ++ ['\n']) :: pieces t := by
  induction line with
  | nil => simp [pieces]
  | cons c line ih =>
    have hc : c ≠ '\n' := fun e => h (e ▸ List.mem_cons_self ..)
    have := ih fun m => h (List.mem_cons_of_mem _ m)
    simp only [pieces, List.cons_append, List.foldr_cons, if_neg hc] at this ⊢
    rw [this]

theorem pieces_eq_singleton {line : Text} (h : '\n' ∉ line) (ne : line ≠ []) :
    pieces line = [line] := by
  induction line with
  | nil => exact absurd rfl ne
  | cons c line ih =>
    have hc : c ≠ '\n' := fun e => h (e ▸ List.mem_cons_self ..)
    have hl : '\n' ∉ line := fun m => h (List.mem_cons_of_mem _ m)
    cases line with
    | nil => simp [pieces, hc]
    | cons d line =>
      have := ih hl (by simp)
      simp only [pieces] at this ⊢
      rw [List.foldr_cons, this, if_neg hc]

theorem linesFrom_eq {start : Text} (h : '\n' ∉ start) (t : Text) :
    linesFrom start t = (pieces (start.reverse ++ t)).map fun p => (divideEnd p).1 := by
  induction t generalizing start with
  | nil =>
    cases start with
    | nil => rfl
    | cons c start =>
      have hr : '\n' ∉ (c :: start).reverse := fun m => h (List.mem_reverse.1 m)
      have hc : c ≠ '\n' := fun e => h (e ▸ List.mem_cons_self ..)
      rw [List.append_nil, pieces_eq_singleton hr (by simp)]
      simp [linesFrom, divideEnd, hc]
  | cons c t ih =>
    unfold linesFrom
    split
    · rename_i hc
      subst hc
      rw [pieces_append_cons (by simpa using h), ih List.not_mem_nil]
      simp only [List.map_cons, List.reverse_nil, List.nil_append]
      congr 1
      cases start with
      | nil => rfl
      | cons d start => by_cases hd : d = '\r' <;> simp [divideEnd, hd]
    · rename_i hc
      rw [ih (by simp [h, Ne.symm hc])]
      simp

/-- Lines and pieces stand in the same order, and a line is its piece without its line end. -/
theorem lines_eq_map_pieces (t : Text) : lines t = (pieces t).map fun p => (divideEnd p).1 :=
  linesFrom_eq List.not_mem_nil t

end LazyFields.Text
