import LazyFields.Proofs.Schema.Grammar

/-!
# The grammars of schema lines

Each recogniser accepts a grammar: the lines that begin with the parts it looks for, one row of
characters after the other.  Where two rows meet, no character belongs to both classes, so a line
is put together from such parts in one way only.  The three grammars have no line in common: a
line of two of them would have the same keyword, the same blanks and the same name in front, and
then two different marks.
-/
namespace LazyFields.Schema
open Text

/-- The line begins with the declaration of the field: its type, blanks, its name, an equals sign,
its ordinal in digits of ASCII, and a semicolon, with or without blanks around the equals sign and
before the semicolon. -/
inductive DeclarationLine (d : FieldDeclaration) : Text → Prop
  | intro {sep before after digits gap rest : Text} (htype : Row isTypeName d.type)
      (hsep : Row isBlank sep) (hname : FieldName d.name) (hbefore : Blank before)
      (hafter : Blank after) (hdigits : OrdinalDigits digits)
      (hvalue : Nat.ofDigitChars 10 digits 0 = d.ordinal) (hgap : Blank gap) :
      DeclarationLine d (d.type ++ (sep ++ (d.name ++ (before ++ '=' :: (after ++ (digits ++
        (gap ++ ';' :: rest)))))))

/-- The line begins with the opening of a block: the keyword, blanks, the name and a brace, with or
without blanks before the brace. -/
inductive OpeningLine (keyword name : Text) : Text → Prop
  | intro {sep gap rest : Text} (hsep : Row isBlank sep) (hname : Row isWord name)
      (hgap : Blank gap) :
      OpeningLine keyword name (keyword ++ (sep ++ (name ++ (gap ++ '{' :: rest))))

/-- A row of a class, up to where the class ends, is read off a text in one way only. -/
theorem eq_of_append_eq_append {p : Char → Bool} {s t rest more : Text} (hs : ∀ c ∈ s, p c = true)
    (ht : ∀ c ∈ t, p c = true) (stop : ∀ c, rest.head? = some c → p c = false)
    (stop' : ∀ c, more.head? = some c → p c = false) (h : s ++ rest = t ++ more) :
    s = t ∧ rest = more := by
  have rows := congrArg (List.takeWhile p) h
  have rests := congrArg (List.dropWhile p) h
  rw [takeWhile_append_stop hs stop, takeWhile_append_stop ht stop'] at rows
  rw [dropWhile_append_stop hs stop, dropWhile_append_stop ht stop'] at rests
  exact ⟨rows, rests⟩

/-- Two rows of visible characters with blanks between them, and blanks and a mark behind, can be
read off a text in one way only. -/
theorem eq_of_rows {first first' sep sep' second second' gap gap' rest rest' : Text} {m m' : Char}
    (hfirst : Row isTypeName first) (hfirst' : Row isTypeName first') (hsep : Row isBlank sep)
    (hsep' : Row isBlank sep') (hsecond : Row isWord second) (hsecond' : Row isWord second')
    (hgap : Blank gap) (hgap' : Blank gap') (hm : isBlank m = false ∧ isWord m = false)
    (hm' : isBlank m' = false ∧ isWord m' = false)
    (h : first ++ (sep ++ (second ++ (gap ++ m :: rest))) =
      first' ++ (sep' ++ (second' ++ (gap' ++ m' :: rest')))) :
    first = first' ∧ second = second' ∧ m = m' ∧ rest = rest' := by
  obtain ⟨firsts, h₁⟩ := eq_of_append_eq_append hfirst.2 hfirst'.2
    (fun c hc => isTypeName_eq_false_of_isBlank (hsep.head? hc))
    (fun c hc => isTypeName_eq_false_of_isBlank (hsep'.head? hc)) h
  obtain ⟨-, h₂⟩ := eq_of_append_eq_append hsep.2 hsep'.2
    (fun c hc => isBlank_eq_false_of_isWord (hsecond.head? hc))
    (fun c hc => isBlank_eq_false_of_isWord (hsecond'.head? hc)) h₁
  obtain ⟨seconds, h₃⟩ := eq_of_append_eq_append hsecond.2 hsecond'.2
    (eq_false_of_head?_append_cons (fun _ => isBlank_eq_false_of_isWord) hgap hm.2 rest)
    (eq_false_of_head?_append_cons (fun _ => isBlank_eq_false_of_isWord) hgap' hm'.2 rest') h₂
  have marks := congrArg trimStart h₃
  rw [trimStart_append_cons hgap hm.1, trimStart_append_cons hgap' hm'.1] at marks
  exact ⟨firsts, seconds, List.cons.inj marks⟩

section Readers
variable {line : Text}

/-- The reader of declarations accepts the lines that begin with one. -/
theorem fieldDeclaration?_eq_some_iff {d : FieldDeclaration} :
    fieldDeclaration? line = some d ↔ DeclarationLine d line := by
  constructor
  · intro h
    obtain ⟨front, gap, rest, rfl, ⟨hsep, hbefore, hafter, hdigits⟩, hgap, htype, hname⟩ :=
      exists_of_fieldDeclaration? h
    rename_i sep before after digits
    have read : fieldDeclaration? (d.type ++ (sep ++ (d.name ++ (before ++ '=' :: (after ++
        (digits ++ (gap ++ ';' :: rest))))))) =
          (ordinal? digits).map fun n => ⟨d.type, d.name, n⟩ :=
      fieldDeclaration?_append htype hsep hname hbefore hafter hdigits hgap
    have split :
        d.type ++ sep ++ d.name ++ before ++ '=' :: (after ++ digits) ++ gap ++ ';' :: rest =
        d.type ++ (sep ++ (d.name ++ (before ++ '=' :: (after ++ (digits ++ (gap ++
          ';' :: rest)))))) := by simp
    rw [split] at h ⊢
    rw [h] at read
    rcases ordinal?_cases hdigits.1 with ⟨ordinal, value⟩ | ⟨-, none⟩
    · rw [value, Option.map_some] at read
      have value := congrArg FieldDeclaration.ordinal (Option.some.inj read)
      exact .intro htype hsep hname hbefore hafter ordinal value.symm hgap
    · rw [none] at read
      contradiction
  · rintro ⟨htype, hsep, hname, hbefore, hafter, hdigits, hvalue, hgap⟩
    have digits := hdigits.ascii
    rw [fieldDeclaration?_append htype hsep hname hbefore hafter
      ⟨digits.1, fun c hc => isDecimalDigit_of_isDigit (digits.2 c hc)⟩ hgap]
    rcases ordinal?_cases digits.1 with ⟨-, value⟩ | ⟨other, -⟩
    · rw [value, hvalue, Option.map_some]
    · exact absurd hdigits other

theorem opener?_eq_some_iff_openingLine {keyword name : Text} :
    opener? keyword line = some name ↔ OpeningLine keyword name line := by
  rw [opener?_eq_some_iff]
  constructor
  · rintro ⟨sep, gap, rest, rfl, hsep, hname, hgap⟩
    exact .intro hsep hname hgap
  · rintro ⟨hsep, hname, hgap⟩
    exact ⟨_, _, _, rfl, hsep, hname, hgap⟩

/-- A line opens blocks of one keyword only. -/
theorem OpeningLine.keyword_eq {keyword keyword' name name' : Text} (hword : Row isTypeName keyword)
    (hword' : Row isTypeName keyword') (h : OpeningLine keyword name line)
    (h' : OpeningLine keyword' name' line) : keyword = keyword' := by
  obtain ⟨hsep, hname, hgap⟩ := h
  generalize hline : keyword ++ _ = line at h'
  obtain ⟨hsep', hname', hgap'⟩ := h'
  exact (eq_of_rows hword hword' hsep hsep' hname hname' hgap hgap' (by decide) (by decide) hline).1

/-- A line that declares a field opens no block: behind the name stands an equals sign where the
brace would stand. -/
theorem DeclarationLine.not_openingLine {d : FieldDeclaration} {keyword name : Text}
    (hword : Row isTypeName keyword) (h : DeclarationLine d line) :
    ¬OpeningLine keyword name line := by
  intro opening
  obtain ⟨htype, hsep, hfield, hbefore, hafter, hdigits, hvalue, hgap⟩ := h
  generalize hline : d.type ++ _ = line at opening
  obtain ⟨hsep', hname', hgap'⟩ := opening
  have marks := eq_of_rows htype hword hsep hsep' hfield.row hname' hbefore hgap' (by decide)
    (by decide) hline
  exact absurd marks.2.2.1 (by decide)

end Readers

/-- The recognisers accept exactly their grammars, which have no line in common, and a line that
declares a field declares one field only. -/
theorem recognisers_accept_grammars (line : Text) :
    (∀ d, fieldDeclaration? line = some d ↔ DeclarationLine d line) ∧
    (∀ d d', DeclarationLine d line → DeclarationLine d' line → d = d') ∧
    (∀ name, messageOpener? line = some name ↔ OpeningLine "message".toList name line) ∧
    (∀ name, enumOpener? line = some name ↔ OpeningLine "enum".toList name line) ∧
    ¬((fieldDeclaration? line).isSome ∧ (messageOpener? line).isSome) ∧
    ¬((fieldDeclaration? line).isSome ∧ (enumOpener? line).isSome) ∧
    ¬((messageOpener? line).isSome ∧ (enumOpener? line).isSome) := by
  have message : Row isTypeName "message".toList := ⟨by decide, List.all_eq_true.1 (by decide)⟩
  have enum : Row isTypeName "enum".toList := ⟨by decide, List.all_eq_true.1 (by decide)⟩
  refine ⟨fun d => fieldDeclaration?_eq_some_iff, fun d d' h h' => ?_,
    fun name => opener?_eq_some_iff_openingLine, fun name => opener?_eq_some_iff_openingLine,
    ?_, ?_, ?_⟩
  · have read := fieldDeclaration?_eq_some_iff.2 h
    rw [fieldDeclaration?_eq_some_iff.2 h'] at read
    exact (Option.some.inj read).symm
  all_goals
    simp only [Option.isSome_iff_exists]
    rintro ⟨⟨one, h⟩, name, h'⟩
  · exact (fieldDeclaration?_eq_some_iff.1 h).not_openingLine message
      (opener?_eq_some_iff_openingLine.1 h')
  · exact (fieldDeclaration?_eq_some_iff.1 h).not_openingLine enum
      (opener?_eq_some_iff_openingLine.1 h')
  · have same := OpeningLine.keyword_eq message enum (opener?_eq_some_iff_openingLine.1 h)
      (opener?_eq_some_iff_openingLine.1 h')
    exact absurd same (by decide)

/-- A declaration with a qualified type, a blank from outside ASCII, leading zeros in its ordinal,
and a remark behind it. -/
def looseDeclaration : Text := "google.protobuf.Any any_1=\u00a0007 ; // message A \x7b".toList

/-- The line is one of the grammar of declarations with the ordinal 7, declares nothing else, and
is in neither of the other grammars. -/
theorem declares_of_looseDeclaration :
    DeclarationLine ⟨"google.protobuf.Any".toList, "any_1".toList, 7⟩ looseDeclaration ∧
    (∀ d, DeclarationLine d looseDeclaration →
      d = ⟨"google.protobuf.Any".toList, "any_1".toList, 7⟩) ∧
    messageOpener? looseDeclaration = none ∧
    ∀ name, ¬OpeningLine "enum".toList name looseDeclaration := by
  have read : fieldDeclaration? looseDeclaration =
      some ⟨"google.protobuf.Any".toList, "any_1".toList, 7⟩ := by decide +kernel
  obtain ⟨declares, once, -, opens, noMessage, noEnum, -⟩ :=
    recognisers_accept_grammars looseDeclaration
  have declared := (declares _).1 read
  refine ⟨declared, fun d h => once d _ h declared, ?_, fun name h => ?_⟩
  · rw [← Option.not_isSome_iff_eq_none]
    exact fun some => noMessage ⟨by rw [read]; rfl, some⟩
  · exact noEnum ⟨by rw [read]; rfl, by rw [(opens name).2 h]; rfl⟩

end LazyFields.Schema
