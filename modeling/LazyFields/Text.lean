/-!
# Text

Names, schema files and source files are handled as the sequences of their characters.  The
operations here look for one text in another and cut a text at a character.
-/
namespace LazyFields

abbrev Text := List Char

namespace Text

/-- What follows `front` in a text that begins with it. -/
def after? : (front t : Text) → Option Text
  | [], t => some t
  | _ :: _, [] => none
  | a :: front, b :: t => if a = b then after? front t else none

theorem after?_eq_some_iff {front t rest : Text} :
    after? front t = some rest ↔ t = front ++ rest := by
  induction front generalizing t with
  | nil => simp [after?, eq_comm]
  | cons a front ih =>
    cases t with
    | nil => simp [after?]
    | cons b t =>
      by_cases h : a = b
      · simp [after?, h, ih]
      · simp [after?, h, Ne.symm h]

def holds (part : Text) : Text → Bool
  | [] => part.isEmpty
  | c :: t => part.isPrefixOf (c :: t) || holds part t

theorem holds_iff_infix {part t : Text} : holds part t = true ↔ part <:+: t := by
  induction t with
  | nil => simp [holds]
  | cons c t ih => simp [holds, ih, List.infix_cons_iff]

/-- The pieces of a text, or of bytes, between the occurrences of `mark`, empty ones included. -/
def splitOn {α : Type} [DecidableEq α] (mark : α) (t : List α) : List (List α) :=
  t.foldr
    (fun c parts =>
      if c = mark then [] :: parts
      else match parts with
        | [] => [[c]]
        | p :: ps => (c :: p) :: ps)
    [[]]

theorem not_mem_of_mem_splitOn {mark : Char} {t part : Text} (h : part ∈ splitOn mark t) :
    mark ∉ part := by
  induction t generalizing part with
  | nil =>
    rw [List.mem_singleton.1 h]
    exact List.not_mem_nil
  | cons c t ih =>
    simp only [splitOn, List.foldr_cons] at h ih
    split at h
    · rcases List.mem_cons.1 h with rfl | h
      · exact List.not_mem_nil
      · exact ih h
    · rename_i hc
      split at h
      · rw [List.mem_singleton.1 h, List.mem_singleton]
        exact Ne.symm hc
      · rename_i p ps hp
        rw [hp] at ih
        rcases List.mem_cons.1 h with rfl | h
        · exact fun m => (List.mem_cons.1 m).elim (Ne.symm hc) (ih (List.mem_cons_self ..))
        · exact ih (List.mem_cons_of_mem _ h)

def ofNat (n : Nat) : Text := Nat.toDigits 10 n

end Text
end LazyFields
