import LazyFields.Proofs.Toml.WrittenScalar
import LazyFields.Proofs.Toml.WrittenString

/-!
# Written values

The value of an assignment stands between a blank and a line feed.  Strings, booleans, natural
numbers and arrays of strings read back from there; the items of an array may take a line each.
-/
namespace LazyFields.Toml
open Text

variable {rest : Text} {fuel depth : Nat}

/-- A written text reads as a value on a line of its own. -/
structure ReadsAs (written : Text) (v : Value) : Prop where
  visible : ∀ s, skipSpaces (written ++ s) = written ++ s
  read : ∀ fuel rest, (written ++ '\n' :: rest).length < fuel →
    readValue? fuel maxNesting (written ++ '\n' :: rest) = some (v, '\n' :: rest)

theorem endsValue_lineFeed (rest : Text) : EndsValue ('\n' :: rest) := .inr (.inr rfl)

section Atoms

theorem skipSpaces_eq_self {t : Text} (blank : t.head? ≠ some ' ') (tab : t.head? ≠ some '\t') :
    skipSpaces t = t := by
  cases t with
  | nil => rfl
  | cons c t =>
    have hc : isSpace c = false := by
      simp only [List.head?_cons, ne_eq, Option.some.injEq] at blank tab
      simp [isSpace, blank, tab]
    simp [skipSpaces, hc]

/-- A value that is neither an array nor an inline table needs no nesting. -/
theorem readValue?_eq_readAtom? {t : Text} (array : t.head? ≠ some '[')
    (table : t.head? ≠ some '\x7b') : readValue? fuel depth t = readAtom? t := by
  cases depth with
  | zero => rfl
  | succ depth =>
    unfold readValue?
    split
    · exact absurd rfl array
    · exact absurd rfl table
    · rfl

theorem readAtom?_eq_readScalar? {t : Text} (double : t.head? ≠ some '"')
    (single : t.head? ≠ some '\'') : readAtom? t = readScalar? t := by
  rw [readAtom?, if_neg (by simp [double, single])]

theorem readsAs_scalar {row : Text} {v : Value} (h : WritesScalar row v) : ReadsAs row v := by
  have other {c : Char} (hc : isScalarChar c = false) (t : Text) : (row ++ t).head? ≠ some c :=
    head?_append_ne h.ne_nil h.inside hc t
  constructor
  · intro s
    exact skipSpaces_eq_self (other rfl s) (other rfl s)
  · intro fuel rest _
    rw [readValue?_eq_readAtom? (other rfl _) (other rfl _),
      readAtom?_eq_readScalar? (other rfl _) (other rfl _),
      readScalar?_append h.inside h.undated (endsValue_lineFeed rest), h.value]
    rfl

/-- A string is written in quotes. -/
theorem exists_writeString (t : Text) :
    ∃ quote body, writeString t = quote :: body ∧ (quote = '"' ∨ quote = '\'') := by
  unfold writeString
  cases StringForm.ofText t with
  | basic => exact ⟨'"', _, rfl, .inl rfl⟩
  | literal => exact ⟨'\'', _, rfl, .inr rfl⟩
  | longBasic => exact ⟨'"', _, rfl, .inl rfl⟩
  | longLiteral => exact ⟨'\'', _, rfl, .inr rfl⟩

theorem head?_writeString (t s : Text) :
    (writeString t ++ s).head? = some '"' ∨ (writeString t ++ s).head? = some '\'' := by
  obtain ⟨quote, body, h, rfl | rfl⟩ := exists_writeString t
  · simp [h]
  · simp [h]

theorem head?_writeString_ne {c : Char} (double : c ≠ '"') (single : c ≠ '\'') (t s : Text) :
    (writeString t ++ s).head? ≠ some c := by
  cases head?_writeString t s with
  | inl h => simpa [h] using double.symm
  | inr h => simpa [h] using single.symm

theorem readValue?_writeString (t : Text) (ends : EndsValue rest) :
    readValue? fuel depth (writeString t ++ rest) = some (.string t, rest) := by
  have array := head?_writeString_ne (c := '[') (by decide) (by decide) t rest
  have table := head?_writeString_ne (c := '\x7b') (by decide) (by decide) t rest
  rw [readValue?_eq_readAtom? array table, readAtom?, if_pos (head?_writeString t rest),
    readString?_writeString t (ends.head?_ne (by decide)) (ends.head?_ne (by decide))]
  rfl

theorem readsAs_writeString (t : Text) : ReadsAs (writeString t) (.string t) where
  visible s := by
    apply skipSpaces_eq_self
    · exact head?_writeString_ne (by decide) (by decide) t s
    · exact head?_writeString_ne (by decide) (by decide) t s
  read _ rest _ := readValue?_writeString t (endsValue_lineFeed rest)

end Atoms

section Arrays

/-- A character that starts no blank, line end or comment. -/
def isInk (c : Char) : Bool := !isSpace c && c != '\n' && c != '\r' && c != '#'

variable {c : Char}

theorem skipSpaces_append {spaces : Text} (hs : spaces.all isSpace = true)
    (hc : isSpace c = false) (t : Text) : skipSpaces (spaces ++ c :: t) = c :: t := by
  apply dropWhile_append_stop (List.all_eq_true.1 hs)
  intro d hd
  rwa [← Option.some.inj hd]

theorem skipLayout?_append {spaces : Text} (hs : spaces.all isSpace = true) (hc : isInk c = true)
    (t : Text) : skipLayout? (fuel + 1) (spaces ++ c :: t) = some (c :: t) := by
  simp only [isInk, Bool.and_eq_true, Bool.not_eq_true', bne_iff_ne] at hc
  rw [skipLayout?, skipSpaces_append hs hc.1.1.1]
  split
  · rename_i h
    exact absurd (List.cons.inj h).1 hc.1.1.2
  · rename_i h
    exact absurd (List.cons.inj h).1 hc.1.2
  · rename_i h
    exact absurd (List.cons.inj h).1 hc.2
  · rfl

theorem skipLayout?_eq_self (hc : isInk c = true) (t : Text) :
    skipLayout? (fuel + 1) (c :: t) = some (c :: t) :=
  skipLayout?_append (List.all_nil) hc t

theorem skipLayout?_lineFeed {spaces : Text} (hs : spaces.all isSpace = true) (hc : isInk c = true)
    (t : Text) : skipLayout? (fuel + 2) ('\n' :: (spaces ++ c :: t)) = some (c :: t) := by
  rw [skipLayout?]
  exact skipLayout?_append hs hc t

def itemLine (t : Text) : Text := "    ".toList ++ writeString t ++ [',', '\n']

theorem readItems?_item {read : Text → Option (Value × Text)} {t s : Text} (lead : Text)
    (start : ∀ c u, isInk c = true → skipLayout? (fuel + 1) (lead ++ c :: u) = some (c :: u))
    (hread : read (writeString t ++ s) = some (.string t, s)) (items : List Value) :
    readItems? read (fuel + 1) items (lead ++ (writeString t ++ s)) =
      (skipLayout? (fuel + 1) s).bind fun
        | ',' :: u => readItems? read fuel (.string t :: items) u
        | ']' :: u => some ((.string t :: items).reverse, u)
        | _ => none := by
  obtain ⟨quote, body, h, rfl | rfl⟩ := exists_writeString t
  · rw [h, List.cons_append] at hread ⊢
    rw [readItems?, start _ _ (by decide)]
    change (read ('"' :: (body ++ s))).bind _ = _
    rw [hread]
    rfl
  · rw [h, List.cons_append] at hread ⊢
    rw [readItems?, start _ _ (by decide)]
    change (read ('\'' :: (body ++ s))).bind _ = _
    rw [hread]
    rfl

/-- Items on lines of their own are read to the closing bracket. -/
theorem readItems?_itemLines {read : Text → Option (Value × Text)}
    (hread : ∀ t s, read (writeString t ++ ',' :: s) = some (.string t, ',' :: s))
    (ts : List Text) {fuel : Nat} (items : List Value)
    (enough : ('\n' :: (ts.flatMap itemLine ++ ']' :: rest)).length < fuel) :
    readItems? read fuel items ('\n' :: (ts.flatMap itemLine ++ ']' :: rest)) =
      some (items.reverse ++ ts.map .string, rest) := by
  induction ts generalizing fuel items with
  | nil =>
    obtain ⟨fuel, rfl⟩ : ∃ n, fuel = n + 2 := by
      refine ⟨fuel - 2, ?_⟩
      simp only [List.length_cons, List.flatMap_nil, List.nil_append] at enough
      omega
    have closing : skipLayout? (fuel + 2) ('\n' :: ']' :: rest) = some (']' :: rest) :=
      skipLayout?_lineFeed List.all_nil (by decide) rest
    rw [List.flatMap_nil, List.nil_append, readItems?, closing]
    simp
  | cons t ts ih =>
    have cut : '\n' :: ((t :: ts).flatMap itemLine ++ ']' :: rest) =
        ('\n' :: "    ".toList) ++
          (writeString t ++ ',' :: '\n' :: (ts.flatMap itemLine ++ ']' :: rest)) := by
      simp [itemLine]
    rw [cut] at enough ⊢
    obtain ⟨fuel, rfl⟩ : ∃ n, fuel = n + 2 := by
      refine ⟨fuel - 2, ?_⟩
      simp only [List.length_append, List.length_cons] at enough
      omega
    have start : ∀ c u, isInk c = true →
        skipLayout? (fuel + 2) (('\n' :: "    ".toList) ++ c :: u) = some (c :: u) :=
      fun c u hc => skipLayout?_lineFeed rfl hc u
    have shorter : ('\n' :: (ts.flatMap itemLine ++ ']' :: rest)).length < fuel + 1 := by
      simp only [List.length_append, List.length_cons] at enough ⊢
      omega
    have later := ih (.string t :: items) shorter
    rw [readItems?_item _ start (hread t _), skipLayout?_eq_self (by decide)]
    change readItems? read (fuel + 1) _ _ = _
    rw [later]
    simp

theorem readValue?_array (t : Text) : readValue? fuel (depth + 1) ('[' :: t) =
    (readItems? (readValue? fuel depth) fuel [] t).map fun (items, t) => (.array items, t) :=
  rfl

/-- A list of strings reads back as an array. -/
theorem readValue?_writeStrings (ts : List Text)
    (enough : (writeStrings ts ++ rest).length < fuel) :
    readValue? fuel (depth + 1) (writeStrings ts ++ rest) =
      some (.array (ts.map .string), rest) := by
  obtain ⟨fuel, rfl⟩ : ∃ n, fuel = n + 1 := ⟨fuel - 1, by omega⟩
  match ts with
  | [] =>
    have closing : skipLayout? (fuel + 1) (']' :: rest) = some (']' :: rest) :=
      skipLayout?_eq_self (by decide) rest
    have cut : writeStrings [] ++ rest = '[' :: ']' :: rest := rfl
    rw [cut, readValue?_array, readItems?, closing]
    rfl
  | [t] =>
    have cut : writeStrings [t] ++ rest = '[' :: (writeString t ++ ']' :: rest) := by
      simp [writeStrings]
    have item : readValue? (fuel + 1) depth (writeString t ++ ']' :: rest) =
        some (.string t, ']' :: rest) := readValue?_writeString t (.inr (.inl rfl))
    have start : ∀ c u, isInk c = true → skipLayout? (fuel + 1) ([] ++ c :: u) = some (c :: u) :=
      fun _ u hc => skipLayout?_eq_self hc u
    have items := readItems?_item [] start item []
    rw [skipLayout?_eq_self (by decide), List.nil_append] at items
    rw [cut, readValue?_array, items]
    rfl
  | t :: u :: ts =>
    have cut : writeStrings (t :: u :: ts) ++ rest =
        '[' :: '\n' :: ((t :: u :: ts).flatMap itemLine ++ ']' :: rest) := by
      change '[' :: '\n' :: (t :: u :: ts).flatMap itemLine ++ [']'] ++ rest = _
      simp
    rw [cut, List.length_cons] at enough
    have item : ∀ t s, readValue? (fuel + 1) depth (writeString t ++ ',' :: s) =
        some (.string t, ',' :: s) := fun t _ => readValue?_writeString t (.inl rfl)
    have items := readItems?_itemLines item (t :: u :: ts) [] (Nat.lt_of_succ_lt enough)
    rw [cut, readValue?_array, items]
    rfl

theorem readsAs_writeStrings (ts : List Text) :
    ReadsAs (writeStrings ts) (.array (ts.map .string)) where
  visible s := by
    match ts with
    | [] => rfl
    | [t] => rfl
    | t :: u :: ts => rfl
  read _ _ enough := readValue?_writeStrings ts enough

end Arrays
end LazyFields.Toml
