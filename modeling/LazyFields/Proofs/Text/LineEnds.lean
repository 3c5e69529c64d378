import LazyFields.Proofs.Text.Lines

/-!
# Line ends with carriage returns

A line feed may have a carriage return before it, which belongs to the line end.  To put one before
each line feed of a text is to put one into each of its pieces, and leaves the lines as they are.
-/
namespace LazyFields.Text

/-- The text with a carriage return before each line feed. -/
def crlf (t : Text) : Text := t.flatMap fun c => if c = '\n' then ['\r', '\n'] else [c]

theorem crlf_append (s t : Text) : crlf (s ++ t) = crlf s ++ crlf t := List.flatMap_append

theorem crlf_eq_self {t : Text} (h : '\n' ∉ t) : crlf t = t := by
  induction t with
  | nil => rfl
  | cons c t ih =>
    simp only [List.mem_cons, not_or] at h
    rw [crlf, List.flatMap_cons, if_neg (Ne.symm h.1), List.singleton_append]
    exact congrArg (c :: ·) (ih h.2)

theorem crlf_line_append (line : Text) (h : '\n' ∉ line) :
    crlf (line ++ ['\n']) = line ++ ['\r', '\n'] := by
  rw [crlf_append, crlf_eq_self h]
  rfl

theorem Cut.map_crlf {ps : List Text} (h : Cut ps) : Cut (ps.map crlf) := by
  induction h with
  | nil => exact .nil
  | last inside ne =>
    rw [List.map_singleton, crlf_eq_self inside]
    exact .last inside ne
  | @cons line ps inside rest ih =>
    have longer : '\n' ∉ line ++ ['\r'] := by simp [inside]
    have whole : line ++ ['\r', '\n'] = (line ++ ['\r']) ++ ['\n'] := by simp
    rw [List.map_cons, crlf_line_append line inside, whole]
    exact .cons longer ih

theorem crlf_flatMap {α : Type} (f : α → Text) (as : List α) :
    crlf (as.flatMap f) = as.flatMap fun a => crlf (f a) :=
  List.flatMap_assoc

theorem pieces_crlf (t : Text) : pieces (crlf t) = (pieces t).map crlf := by
  have whole : crlf t = ((pieces t).map crlf).flatten := by
    conv_lhs => rw [← flatten_pieces t]
    rw [← List.flatMap_id, crlf_flatMap, List.flatMap_def]
    rfl
  rw [whole, (cut_pieces t).map_crlf.pieces_flatten]

theorem Cut.exists_line {ps : List Text} (h : Cut ps) {p : Text} (hp : p ∈ ps) :
    ∃ line, '\n' ∉ line ∧ (p = line ∨ p = line ++ ['\n']) := by
  induction h with
  | nil => simp at hp
  | last inside ne => exact ⟨_, inside, .inl (List.mem_singleton.1 hp)⟩
  | cons inside rest ih =>
    rcases List.mem_cons.1 hp with rfl | hp
    · exact ⟨_, inside, .inr rfl⟩
    · exact ih hp

theorem divideEnd_crlf {line p : Text} (inside : '\n' ∉ line) (bare : '\r' ∉ line)
    (hp : p = line ∨ p = line ++ ['\n']) :
    (divideEnd p).1 = line ∧ (divideEnd (crlf p)).1 = line ∧
      (divideEnd (crlf p)).2 = crlf (divideEnd p).2 := by
  rcases hp with rfl | rfl
  · rw [crlf_eq_self inside, divideEnd_of_not_mem inside]
    exact ⟨rfl, rfl, rfl⟩
  · have ends : divideEnd (line ++ ['\n']) = (line, ['\n']) := by
      have back : (line ++ ['\n']).reverse = '\n' :: line.reverse := by simp
      unfold divideEnd
      rw [back]
      split
      · rename_i hr
        have hl : line.reverse = '\r' :: _ := (List.cons.inj hr).2
        exact absurd (List.mem_reverse.1 (hl ▸ List.mem_cons_self)) bare
      · rename_i hr
        rw [← (List.cons.inj hr).2, List.reverse_reverse]
      · rename_i hr
        exact absurd rfl (hr _)
    have ends' : divideEnd (line ++ ['\r', '\n']) = (line, ['\r', '\n']) := by
      simp [divideEnd]
    rw [crlf_line_append line inside, ends, ends']
    exact ⟨rfl, rfl, rfl⟩

end LazyFields.Text
