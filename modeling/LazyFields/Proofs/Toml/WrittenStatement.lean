import LazyFields.Proofs.Toml.WrittenValue

/-!
# Written statements

A document is written line by line, and each line reads as a statement, or none, in front of any
other lines.  So the statements of lines are those of the first ones and those of the others.
-/
namespace LazyFields.Toml
open Text

section Keys
variable {key : Text}

def IsBare (key : Text) : Prop := key ≠ [] ∧ key.all isKeyChar = true

instance (key : Text) : Decidable (IsBare key) :=
  inferInstanceAs (Decidable (_ ∧ _))

theorem head?_bare (bare : IsBare key) {c : Char} (hc : isKeyChar c = false) (t : Text) :
    (key ++ t).head? ≠ some c :=
  head?_append_ne bare.1 (List.all_eq_true.1 bare.2) hc t

theorem skipSpaces_bare (bare : IsBare key) (t : Text) : skipSpaces (key ++ t) = key ++ t :=
  skipSpaces_eq_self (head?_bare bare rfl t) (head?_bare bare rfl t)

theorem readStep?_append (bare : IsBare key) {c : Char} (hc : isKeyChar c = false) (t : Text) :
    readStep? (key ++ c :: t) = some (key, c :: t) := by
  have inside := List.all_eq_true.1 bare.2
  have stop : ∀ d, (c :: t).head? = some d → isKeyChar d = false := by
    intro d hd
    rwa [← Option.some.inj hd]
  have cut : (key ++ c :: t).takeWhile isKeyChar = key := takeWhile_append_stop inside stop
  have left : (key ++ c :: t).dropWhile isKeyChar = c :: t := dropWhile_append_stop inside stop
  unfold readStep?
  split
  · rename_i h
    exact absurd (by rw [h]; rfl) (head?_bare bare (c := '"') rfl (c :: t))
  · rename_i h
    exact absurd (by rw [h]; rfl) (head?_bare bare (c := '\'') rfl (c :: t))
  · rw [cut, left]
    split
    · exact absurd rfl bare.1
    · rfl

/-- A bare key reads as itself and not as a dotted one. -/
theorem readKey?_append (bare : IsBare key) {c : Char} (hc : isKeyChar c = false) {t : Text}
    (dot : (skipSpaces (c :: t)).head? ≠ some '.') :
    readKey? (key ++ c :: t) = some (([], key), skipSpaces (c :: t)) := by
  change readSteps? (78 + 1) [] (key ++ c :: t) = _
  rw [readSteps?, skipSpaces_bare bare, readStep?_append bare hc]
  simp only [bind, Option.bind_some]
  split
  · rename_i h
    exact absurd (by rw [h]; rfl) dot
  · rfl

theorem readKey?_bracket (bare : IsBare key) (t : Text) :
    readKey? (key ++ ']' :: t) = some (([], key), ']' :: t) := by
  apply readKey?_append bare rfl
  change some ']' ≠ some '.'
  decide

theorem readKey?_equals (bare : IsBare key) (t : Text) :
    readKey? (key ++ ' ' :: '=' :: t) = some (([], key), '=' :: t) := by
  apply readKey?_append bare rfl
  change some '=' ≠ some '.'
  decide

end Keys

section Lines
variable {fuel : Nat} {t : Text}

/-- What begins with one bracket is the header of a table. -/
theorem readStatements?_header (single : t.head? ≠ some '[') :
    readStatements? (fuel + 1) ('[' :: t) = do
      let ((path, key), t) ← readKey? t
      let t ← afterStatement? (← after? [']'] t)
      return .header path key :: (← readStatements? fuel t) := by
  have shown : skipSpaces ('[' :: t) = '[' :: t := rfl
  rw [readStatements?, shown]
  split
  · rename_i h
    exact absurd h (by simp)
  · rename_i h
    exact absurd (List.cons.inj h).1 (by decide)
  · rename_i h
    exact absurd (List.cons.inj h).1 (by decide)
  · rename_i h
    exact absurd (List.cons.inj h).1 (by decide)
  · rename_i h
    exact absurd (by rw [(List.cons.inj h).2]; rfl) single
  · rename_i h
    rw [(List.cons.inj h).2]
  · rename_i h
    exact absurd rfl (h t)

/-- What begins with a bare key is an assignment. -/
theorem readStatements?_bare {key : Text} (bare : IsBare key) :
    readStatements? (fuel + 1) (key ++ t) = do
      let ((path, key), t) ← readKey? (key ++ t)
      let (v, t) ← readValue? (fuel + 1) maxNesting (skipSpaces (← after? ['='] t))
      let t ← afterStatement? t
      return .assign path key v :: (← readStatements? fuel t) := by
  have head {c : Char} (hc : isKeyChar c = false) := head?_bare bare hc t
  rw [readStatements?, skipSpaces_bare bare]
  split
  · rename_i h
    exact absurd (List.append_eq_nil_iff.1 h).1 bare.1
  · rename_i h
    exact absurd (by rw [h]; rfl) (head (c := '\n') rfl)
  · rename_i h
    exact absurd (by rw [h]; rfl) (head (c := '\r') rfl)
  · rename_i h
    exact absurd (by rw [h]; rfl) (head (c := '#') rfl)
  · rename_i h
    exact absurd (by rw [h]; rfl) (head (c := '[') rfl)
  · rename_i h
    exact absurd (by rw [h]; rfl) (head (c := '[') rfl)
  · rfl

end Lines

section Statements

/-- Reading the text adds the statements to those of what follows it. -/
def Yields (text : Text) (ss : List Statement) : Prop :=
  ∀ rest tail, (∀ fuel, rest.length < fuel → readStatements? fuel rest = some tail) →
    ∀ fuel, (text ++ rest).length < fuel →
      readStatements? fuel (text ++ rest) = some (ss ++ tail)

variable {text text' : Text} {ss ss' : List Statement}

theorem yields_nil : Yields [] [] := fun _ _ read fuel enough => read fuel enough

theorem Yields.append (h : Yields text ss) (h' : Yields text' ss') :
    Yields (text ++ text') (ss ++ ss') := by
  intro rest tail read fuel enough
  rw [List.append_assoc] at enough
  rw [List.append_assoc, List.append_assoc]
  exact h _ _ (h' rest tail read) fuel enough

theorem Yields.readStatements? (h : Yields text ss) :
    readStatements? (text.length + 1) text = some ss := by
  have finished : ∀ fuel, ([] : Text).length < fuel → Toml.readStatements? fuel [] = some [] := by
    intro fuel enough
    cases fuel with
    | zero => simp at enough
    | succ fuel => rfl
  have all := h [] [] finished (text.length + 1) (by simp)
  simpa using all

theorem yields_lineFeed : Yields ['\n'] [] := by
  intro rest tail read fuel enough
  cases fuel with
  | zero => simp at enough
  | succ fuel => exact read fuel (Nat.lt_of_succ_lt_succ enough)

theorem yields_header {key : Text} (bare : IsBare key) :
    Yields ('[' :: key ++ [']', '\n']) [.header [] key] := by
  intro rest tail read fuel enough
  have cut : '[' :: key ++ [']', '\n'] ++ rest = '[' :: (key ++ ']' :: '\n' :: rest) := by simp
  rw [cut] at enough ⊢
  cases fuel with
  | zero => simp at enough
  | succ fuel =>
    simp only [List.length_cons, List.length_append] at enough
    have later : readStatements? fuel rest = some tail := read fuel (by omega)
    rw [readStatements?_header (head?_bare bare rfl _), readKey?_bracket bare]
    change (readStatements? fuel rest).bind _ = _
    rw [later]
    rfl

theorem yields_writeEntry {key written : Text} {v : Value} (bare : IsBare key)
    (reads : ReadsAs written v) : Yields (writeEntry key written) [.assign [] key v] := by
  intro rest tail read fuel enough
  have cut : writeEntry key written ++ rest =
      key ++ ' ' :: '=' :: ' ' :: (written ++ '\n' :: rest) := by
    simp [writeEntry]
  rw [cut] at enough ⊢
  cases fuel with
  | zero => simp at enough
  | succ fuel =>
    simp only [List.length_cons, List.length_append] at enough
    have shown : skipSpaces (' ' :: (written ++ '\n' :: rest)) = written ++ '\n' :: rest :=
      reads.visible _
    have shorter : (written ++ '\n' :: rest).length < fuel + 1 := by
      rw [List.length_append, List.length_cons]
      omega
    have value := reads.read (fuel + 1) rest shorter
    have later : readStatements? fuel rest = some tail := read fuel (by omega)
    rw [readStatements?_bare bare, readKey?_equals bare]
    change (readValue? _ _ (skipSpaces (' ' :: (written ++ '\n' :: rest)))).bind _ = _
    rw [shown, value]
    change (readStatements? fuel rest).bind _ = _
    rw [later]
    rfl

def assignment (e : Text × Value) : Statement := .assign [] e.1 e.2

def optionEntry {α : Type} (key : Text) (value : α → Value) (o : Option α) : Entries :=
  (o.map fun a => (key, value a)).toList

theorem yields_writeOption {α : Type} {key : Text} {write : α → Text} {value : α → Value}
    {o : Option α} (bare : IsBare key) (reads : ∀ a, o = some a → ReadsAs (write a) (value a)) :
    Yields (writeOption key write o) ((optionEntry key value o).map assignment) := by
  cases o with
  | none => exact yields_nil
  | some a => exact yields_writeEntry bare (reads a rfl)

variable {name line : Text}

theorem yields_headerLine (eq : line = '[' :: name ++ [']', '\n']) (bare : IsBare name) :
    Yields line [.header [] name] :=
  eq ▸ yields_header bare

/-- Below another table, a blank line stands above the header. -/
theorem yields_nextHeader (eq : line = '\n' :: '[' :: name ++ [']', '\n']) (bare : IsBare name) :
    Yields line [.header [] name] :=
  eq ▸ yields_lineFeed.append (yields_header bare)

end Statements

end LazyFields.Toml
