import LazyFields.Proofs.Toml.Quoted

/-!
# Written strings over several lines

What stands between the quotes of a long string reads back as the string.  The closing quotes are
three, before which the string itself may end with up to two; the writer keeps any other run of
quotes shorter than three.
-/
namespace LazyFields.Toml
open Text

variable {rest : Text}

section Runs

/-- A run of closing quotes takes up to two more quotes into the string. -/
theorem closeLong?_replicate (quote : Char) {n : Nat} (hn : n ≤ 2) (read : Text) {rest : Text}
    (hr : rest.head? ≠ some quote) :
    closeLong? quote read (quote :: quote :: (List.replicate n quote ++ rest)) =
      some (read.reverse ++ List.replicate n quote, rest) := by
  have run : (List.replicate n quote ++ rest).takeWhile (· == quote) = List.replicate n quote := by
    apply takeWhile_append_stop
    · simp [List.mem_replicate]
    · intro c hc
      rw [beq_eq_false_iff_ne]
      rintro rfl
      exact hr hc
  simp [closeLong?, after?, run, hn]

theorem replicate_quotes_append (quote : Char) {n : Nat} (hn : n ≤ 2) (rest : Text) :
    List.replicate n quote ++ quote :: quote :: quote :: rest =
      quote :: quote :: quote :: (List.replicate n quote ++ rest) := by
  interval_cases n <;> rfl

theorem le_longestRunFrom (quote : Char) (run : Nat) (t : Text) :
    run ≤ longestRunFrom quote run t := by
  induction t generalizing run with
  | nil => exact le_refl run
  | cons c t ih =>
    simp only [longestRunFrom]
    split
    · exact (Nat.le_succ run).trans (ih (run + 1))
    · exact le_max_left ..

theorem longestRunFrom_replicate (quote : Char) (run n : Nat) :
    longestRunFrom quote run (List.replicate n quote) = run + n := by
  induction n generalizing run with
  | zero => rfl
  | succ n ih =>
    simp only [List.replicate_succ, longestRunFrom, if_true, ih]
    omega

theorem not_mem_of_longestRun_eq_zero {quote : Char} {t : Text} (h : longestRun quote t = 0) :
    quote ∉ t := by
  unfold longestRun at h
  induction t with
  | nil => exact List.not_mem_nil
  | cons c t ih =>
    simp only [longestRunFrom, Nat.zero_add] at h
    split at h
    · have positive := le_longestRunFrom quote 1 t
      omega
    · rename_i hc
      have zero : longestRunFrom quote 0 t = 0 := by simpa using h
      simpa [Ne.symm hc] using ih zero

end Runs

section Basic

theorem readLongBasic_skip (read body rest : Text) :
    readLongBasic body.length read (body ++ rest) = readLongBasic 0 read rest := by
  induction body with
  | nil => rfl
  | cons c body ih => simpa [readLongBasic] using ih

theorem readLongBasic_escape {body : Text} {c : Char} (h : Escapes body c) (read rest : Text) :
    readLongBasic 0 read ('\\' :: (body ++ rest)) = readLongBasic 0 (c :: read) rest := by
  simp [readLongBasic, h rest, startsLine_of_escape? (h rest), readLongBasic_skip]

theorem readLongBasic_quote {s : Text} (h : ¬['"', '"'] <+: s) (read : Text) :
    readLongBasic 0 read ('"' :: s) = readLongBasic 0 ('"' :: read) s := by
  rw [← List.isPrefixOf_iff_prefix] at h
  simp [readLongBasic, h]

theorem readLongBasic_lineFeed (read s : Text) :
    readLongBasic 0 read ('\n' :: s) = readLongBasic 0 ('\n' :: read) s := by
  simp [readLongBasic]

theorem readLongBasic_plain {c : Char} (quote : c ≠ '"') (backslash : c ≠ '\\')
    (plain : isPlain c = true) (read s : Text) :
    readLongBasic 0 read (c :: s) = readLongBasic 0 (c :: read) s := by
  have feed : c ≠ '\n' := ne_of_class plain (by decide)
  have ret : c ≠ '\r' := ne_of_class plain (by decide)
  simp [readLongBasic, quote, backslash, feed, ret, plain]

theorem readLongBasic_close {n : Nat} (hn : n ≤ 2) (read : Text)
    (hr : rest.head? ≠ some '"') :
    readLongBasic 0 read (List.replicate n '"' ++ '"' :: '"' :: '"' :: rest) =
      some (read.reverse ++ List.replicate n '"', rest) := by
  rw [replicate_quotes_append _ hn]
  simp [readLongBasic, closeLong?_replicate _ hn read hr]

theorem longBasicBody_replicate {run n : Nat} (h : run + n ≤ 2) :
    longBasicBody run (List.replicate n '"') = List.replicate n '"' := by
  induction n generalizing run with
  | zero => rfl
  | succ n ih =>
    have hrun : run < 2 := by omega
    have tail : longBasicBody (run + 1) (List.replicate n '"') = List.replicate n '"' :=
      ih (by omega)
    simp [List.replicate_succ, longBasicBody, hrun, tail]

theorem head?_longBasicBody {run : Nat} {t s : Text}
    (h : (longBasicBody run t ++ s).head? = some '"') (ht : t ≠ []) :
    t.head? = some '"' ∧ run < 2 := by
  cases t with
  | nil => exact absurd rfl ht
  | cons c t =>
    simp only [longBasicBody] at h
    split at h
    · rename_i hc
      split at h
      · rename_i hrun
        exact ⟨by simp [hc], hrun⟩
      · simp at h
    split at h
    · simp at h
    · rename_i hc hn
      cases escapeChar_cases c with
      | inl he =>
        rw [he.1] at h
        exact absurd (by simpa using h) hc
      | inr he =>
        cases he with
        | intro body he =>
          rw [he.1] at h
          simp at h

/-- Behind a quote, two more quotes stand only at the end of the string. -/
theorem eq_replicate_of_quotes {run : Nat} (hrun : run ≤ 2) (hpos : 0 < run) {t s : Text}
    (h : ['"', '"'] <+: longBasicBody run t ++ s) :
    ∃ n, t = List.replicate n '"' ∧ run + n ≤ 2 := by
  cases t with
  | nil => exact ⟨0, rfl, by omega⟩
  | cons c t =>
    have first : (longBasicBody run (c :: t) ++ s).head? = some '"' := by
      cases h with
      | intro u hu =>
        rw [← hu]
        rfl
    have lead := head?_longBasicBody first (by simp)
    have hc : c = '"' := by simpa using lead.1
    have one : run = 1 := by omega
    subst hc one
    cases t with
    | nil => exact ⟨1, rfl, by omega⟩
    | cons d t =>
      have second : (longBasicBody 2 (d :: t) ++ s).head? = some '"' := by
        cases h with
        | intro u hu =>
          have tail : '"' :: u = longBasicBody 2 (d :: t) ++ s := (List.cons.inj hu).2
          rw [← tail]
          rfl
      exact absurd (head?_longBasicBody second (by simp)).2 (by omega)

/-- A long basic string reads back from between its quotes; `run` quotes of it are already
read. -/
theorem readLongBasic_longBasicBody {run : Nat} (hrun : run ≤ 2) (t read : Text)
    (hr : rest.head? ≠ some '"') :
    readLongBasic 0 read (longBasicBody run t ++ '"' :: '"' :: '"' :: rest) =
      some (read.reverse ++ t, rest) := by
  induction t generalizing run read with
  | nil => exact readLongBasic_close (Nat.zero_le 2) read hr
  | cons c t ih =>
    -- When only quotes are left, they are read together with the closing ones, at once.
    by_cases hend : ∃ n, c :: t = List.replicate n '"' ∧ run + n ≤ 2
    · cases hend with
      | intro n hend =>
        rw [hend.1, longBasicBody_replicate hend.2]
        exact readLongBasic_close (by omega) read hr
    · have later {r : Nat} (h : r ≤ 2) :
          readLongBasic 0 (c :: read) (longBasicBody r t ++ '"' :: '"' :: '"' :: rest) =
            some (read.reverse ++ c :: t, rest) := by
        rw [ih h]
        simp
      simp only [longBasicBody]
      split
      · rename_i hc
        subst hc
        split
        · rename_i hlt
          have inside : ¬['"', '"'] <+:
              longBasicBody (run + 1) t ++ '"' :: '"' :: '"' :: rest := by
            intro h
            cases eq_replicate_of_quotes (by omega) (by omega) h with
            | intro n hn => exact hend ⟨n + 1, by rw [hn.1, List.replicate_succ], by omega⟩
          exact (readLongBasic_quote inside read).trans (later (by omega))
        · exact (readLongBasic_escape escapes_quote read _).trans (later (by omega))
      split
      · rename_i hq hc
        subst hc
        exact (readLongBasic_lineFeed read _).trans (later (by omega))
      · rename_i hq hn
        cases escapeChar_cases c with
        | inl h =>
          rw [h.1]
          exact (readLongBasic_plain hq h.2.1 h.2.2.2 read _).trans (later (by omega))
        | inr h =>
          cases h with
          | intro body h =>
            rw [h.1, List.append_assoc]
            exact (readLongBasic_escape h.2 read _).trans (later (by omega))

end Basic

section Literal

theorem readLongLiteral_quote {s : Text} (h : ¬['\'', '\''] <+: s) (read : Text) :
    readLongLiteral 0 read ('\'' :: s) = readLongLiteral 0 ('\'' :: read) s := by
  rw [← List.isPrefixOf_iff_prefix] at h
  simp [readLongLiteral, h]

theorem readLongLiteral_other {c : Char} (quote : c ≠ '\'') (control : isControl c = false)
    (read s : Text) : readLongLiteral 0 read (c :: s) = readLongLiteral 0 (c :: read) s := by
  by_cases feed : c = '\n'
  · subst feed
    simp [readLongLiteral]
  · have plain : isPlain c = true := isPlain_iff.2 ⟨control, feed⟩
    have ret : c ≠ '\r' := ne_of_class plain (by decide)
    simp [readLongLiteral, quote, feed, ret, plain]

theorem readLongLiteral_close {n : Nat} (hn : n ≤ 2) (read : Text)
    (hr : rest.head? ≠ some '\'') :
    readLongLiteral 0 read (List.replicate n '\'' ++ '\'' :: '\'' :: '\'' :: rest) =
      some (read.reverse ++ List.replicate n '\'', rest) := by
  rw [replicate_quotes_append _ hn]
  simp [readLongLiteral, closeLong?_replicate _ hn read hr]

/-- In a text without three quotes in a row, two more quotes stand behind a quote only at its
end. -/
theorem eq_replicate_of_run {run : Nat} {t s : Text} (short : longestRunFrom '\'' run t ≤ 2)
    (hpos : 0 < run) (h : ['\'', '\''] <+: t ++ s) : ∃ n, t = List.replicate n '\'' := by
  cases h with
  | intro u hu =>
    match t with
    | [] => exact ⟨0, rfl⟩
    | [c] =>
      have hc : '\'' = c := (List.cons.inj hu).1
      exact ⟨1, by rw [← hc]; rfl⟩
    | c :: d :: t =>
      have hc : '\'' = c := (List.cons.inj hu).1
      have hd : '\'' = d := (List.cons.inj (List.cons.inj hu).2).1
      subst hc hd
      have long := le_longestRunFrom '\'' (run + 1 + 1) t
      simp only [longestRunFrom, if_true] at short
      omega

/-- A long literal string reads back from between its quotes. -/
theorem readLongLiteral_append {run : Nat} {t : Text} (control : ∀ c ∈ t, isControl c = false)
    (short : longestRunFrom '\'' run t ≤ 2) (read : Text) (hr : rest.head? ≠ some '\'') :
    readLongLiteral 0 read (t ++ '\'' :: '\'' :: '\'' :: rest) =
      some (read.reverse ++ t, rest) := by
  induction t generalizing run read with
  | nil => exact readLongLiteral_close (Nat.zero_le 2) read hr
  | cons c t ih =>
    -- As for basic strings, the quotes at the end are read together with the closing ones.
    by_cases hend : ∃ n, c :: t = List.replicate n '\''
    · cases hend with
      | intro n hend =>
        rw [hend, longestRunFrom_replicate] at short
        rw [hend]
        exact readLongLiteral_close (by omega) read hr
    · have htail : ∀ d ∈ t, isControl d = false :=
        fun d hd => control d (List.mem_cons_of_mem c hd)
      have later {r : Nat} (h : longestRunFrom '\'' r t ≤ 2) :
          readLongLiteral 0 (c :: read) (t ++ '\'' :: '\'' :: '\'' :: rest) =
            some (read.reverse ++ c :: t, rest) := by
        rw [ih htail h]
        simp
      simp only [longestRunFrom] at short
      split at short
      · rename_i hc
        subst hc
        have inside : ¬['\'', '\''] <+: t ++ '\'' :: '\'' :: '\'' :: rest := by
          intro h
          cases eq_replicate_of_run short (Nat.succ_pos run) h with
          | intro n hn => exact hend ⟨n + 1, by rw [hn, List.replicate_succ]⟩
        exact (readLongLiteral_quote inside read).trans (later short)
      · rename_i hq
        have tail := later ((le_max_right ..).trans short)
        exact (readLongLiteral_other hq (control c List.mem_cons_self) read _).trans tail

end Literal
end LazyFields.Toml
