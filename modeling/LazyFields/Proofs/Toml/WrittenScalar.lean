import LazyFields.Proofs.Text.Lines
import LazyFields.Toml.Document
import LazyFields.Toml.Writer

/-!
# Written booleans and numbers

A value without quotes is cut off as a row and judged by the grammars of the kinds in turn.  The
rows that booleans and natural numbers of 63 bits are written as fit the grammar of their own kind
only.
-/
namespace LazyFields.Toml
open Text

/-- What may follow a written value: a comma, a closing bracket or a line feed. -/
def EndsValue (rest : Text) : Prop :=
  rest.head? = some ',' ∨ rest.head? = some ']' ∨ rest.head? = some '\n'

variable {rest : Text}

theorem EndsValue.head?_ne (h : EndsValue rest) {c : Char} (hc : c ∉ [',', ']', '\n']) :
    rest.head? ≠ some c := by
  intro eq
  simp only [EndsValue, eq, Option.some.injEq] at h
  exact hc (by simpa using h)

theorem EndsValue.not_scalar (h : EndsValue rest) (c : Char) (hc : rest.head? = some c) :
    isScalarChar c = false := by
  simp only [EndsValue, hc, Option.some.injEq] at h
  rcases h with rfl | rfl | rfl <;> decide

theorem readScalar?_append {row : Text} (inside : ∀ c ∈ row, isScalarChar c = true)
    (undated : afterDay? row = none) (ends : EndsValue rest) :
    readScalar? (row ++ rest) = (scalarOfRow? row).map (·, rest) := by
  have cut : (row ++ rest).takeWhile isScalarChar = row :=
    takeWhile_append_stop inside ends.not_scalar
  have left : (row ++ rest).dropWhile isScalarChar = rest :=
    dropWhile_append_stop inside ends.not_scalar
  simp only [readScalar?, cut, left, undated]
  cases scalarOfRow? row with
  | none => rfl
  | some v => rfl

/-- A row that writes a value, and is not the first part of a date and a time of day. -/
structure WritesScalar (row : Text) (v : Value) : Prop where
  ne_nil : row ≠ []
  inside : ∀ c ∈ row, isScalarChar c = true
  undated : afterDay? row = none
  value : scalarOfRow? row = some v

theorem writesScalar_writeBool (b : Bool) : WritesScalar (writeBool b) (.boolean b) where
  ne_nil := by cases b <;> decide
  inside := by
    have inside : (writeBool b).all isScalarChar = true := by cases b <;> rfl
    exact List.all_eq_true.1 inside
  undated := by cases b <;> rfl
  value := by cases b <;> rfl

section Numbers
variable {ds : Text} (digits : ∀ c ∈ ds, c.isDigit = true)
include digits

theorem after?_digits {c : Char} (hc : c.isDigit = false) (front : Text) :
    after? (c :: front) ds = none := by
  cases ds with
  | nil => rfl
  | cons d ds =>
    have hd : d ≠ c := ne_of_class (digits d List.mem_cons_self) hc
    simp [after?, hd.symm]

theorem afterDay?_digits : afterDay? ds = none := by
  have later : ∀ n, ∀ c ∈ ds.drop n, c.isDigit = true :=
    fun n c hc => digits c (List.mem_of_mem_drop hc)
  simp only [afterDay?, fixedDigits?]
  split
  · simp [after?_digits (later 4)]
  · rfl

theorem afterTime?_digits : afterTime? ds = none := by
  have later : ∀ n, ∀ c ∈ ds.drop n, c.isDigit = true :=
    fun n c hc => digits c (List.mem_of_mem_drop hc)
  simp only [afterTime?, fixedDigits?]
  split
  · simp [after?_digits (later 2)]
  · rfl

theorem isDate_digits : isDate ds = false := by
  simp [isDate, afterDay?_digits digits, afterTime?_digits digits]

theorem splitSign_digits : splitSign ds = (false, ds) := by
  unfold splitSign
  split
  · exact absurd (digits '-' List.mem_cons_self) (by decide)
  · exact absurd (digits '+' List.mem_cons_self) (by decide)
  · rfl

theorem ne_of_digits {c : Char} (hc : c.isDigit = false) {t : Text} (ht : c ∈ t) : ds ≠ t := by
  rintro rfl
  simp [digits c ht] at hc

theorem isFloat_digits : isFloat ds = false := by
  have infinite : ds ≠ ['i', 'n', 'f'] := ne_of_digits digits (c := 'i') rfl (by simp)
  have nan : ds ≠ ['n', 'a', 'n'] := ne_of_digits digits (c := 'n') rfl (by simp)
  have unscaled : ds.dropWhile (fun c => c != 'e' && c != 'E') = [] := by
    rw [List.dropWhile_eq_nil_iff]
    intro c hc
    have low : c ≠ 'e' := ne_of_class (digits c hc) rfl
    have high : c ≠ 'E' := ne_of_class (digits c hc) rfl
    simp [low, high]
  have whole : ds.dropWhile (· != '.') = [] := by
    rw [List.dropWhile_eq_nil_iff]
    intro c hc
    have point : c ≠ '.' := ne_of_class (digits c hc) rfl
    simp [point]
  simp [isFloat, splitSign_digits digits, infinite, nan, unscaled, whole]

theorem digits?_digits (ne : ds ≠ []) : digits? Char.isDigit ds = some ds := by
  have single : splitOn '_' ds = [ds] :=
    splitOn_eq_singleton fun h => absurd (digits '_' h) (by decide)
  have all : ds.all Char.isDigit = true := List.all_eq_true.2 digits
  simp [digits?, single, ne, all]

theorem inBase_ten : inBase 10 ds = Nat.ofDigitChars 10 ds 0 := by
  rw [inBase, Nat.ofDigitChars_eq_foldl]
  apply List.foldl_ext
  intro n c hc
  rw [if_pos (digits c hc)]

/-- A row of digits without a leading zero writes an integer. -/
theorem integer?_digits (ne : ds ≠ []) (lead : ds.head? = some '0' → ds = ['0']) :
    integer? ds = bounded? (Nat.ofDigitChars 10 ds 0 : Nat) := by
  unfold integer?
  split
  · exact absurd (digits 'x' (by simp)) (by decide)
  · exact absurd (digits 'o' (by simp)) (by decide)
  · exact absurd (digits 'b' (by simp)) (by decide)
  · have leads : ¬(ds.head? = some '0' ∧ ds ≠ ['0']) := fun h => h.2 (lead h.1)
    simp only [splitSign_digits digits, decimal?, digits?_digits digits ne, bind, pure,
      Option.bind_some, if_neg leads, inBase_ten digits, Bool.false_eq_true, if_false]

end Numbers

section Naturals

theorem isDigit_of_mem_ofNat {n : Nat} {c : Char} (h : c ∈ Text.ofNat n) : c.isDigit = true :=
  Nat.isDigit_of_mem_toDigits (by decide) (by decide) h

theorem head?_ofNat {n : Nat} (h : (Text.ofNat n).head? = some '0') : n = 0 := by
  induction n using Nat.strong_induction_on with
  | _ n ih =>
    by_cases small : n < 10
    · rw [Text.ofNat, Nat.toDigits_of_lt_base small] at h
      interval_cases n <;> first | rfl | exact absurd h (by decide)
    · have large : 10 ≤ n := by omega
      rw [Text.ofNat, Nat.toDigits_of_base_le (by decide) large,
        List.head?_append_of_ne_nil _ Nat.toDigits_ne_nil] at h
      have zero : n / 10 = 0 := ih (n / 10) (by omega) h
      omega

/-- A natural number within the integers of the format writes an integer. -/
theorem writesScalar_ofNat {n : Nat} (hn : (n : Int) ≤ Int64.maxValue.toInt) :
    WritesScalar (Text.ofNat n) (.integer n) := by
  have digits : ∀ c ∈ Text.ofNat n, c.isDigit = true := fun c hc => isDigit_of_mem_ofNat hc
  have lead : (Text.ofNat n).head? = some '0' → Text.ofNat n = ['0'] := by
    intro h
    rw [head?_ofNat h]
    rfl
  have value : integer? (Text.ofNat n) = some (n : Int) := by
    have least : Int64.minValue.toInt ≤ 0 := by decide
    have low : Int64.minValue.toInt ≤ (n : Int) := by omega
    rw [integer?_digits digits Nat.toDigits_ne_nil lead, Text.ofNat, Nat.ofDigitChars_ten_toDigits,
      bounded?, if_pos ⟨low, hn⟩]
  have notTrue : Text.ofNat n ≠ "true".toList := ne_of_digits digits (c := 't') rfl (by simp)
  have notFalse : Text.ofNat n ≠ "false".toList := ne_of_digits digits (c := 'f') rfl (by simp)
  refine ⟨Nat.toDigits_ne_nil, fun c hc => ?_, afterDay?_digits digits, ?_⟩
  · simp [isScalarChar, Char.isAlphanum, digits c hc]
  · rw [scalarOfRow?, if_neg notTrue, if_neg notFalse, if_neg (by simp [isDate_digits digits]),
      if_neg (by simp [isFloat_digits digits]), value]
    rfl

end Naturals
end LazyFields.Toml
