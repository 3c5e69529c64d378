import LazyFields.Proofs.Scan.Namespace
import LazyFields.Proofs.Text.StrictUtf8
import LazyFields.Proofs.Usage
import LazyFields.Scan

/-!
# The account of a scan

What becomes of a visit is settled by the visit alone: it is passed over, noted as a fault, or it is
a source that is too large, cannot be read, or is read.  A scan adds up what becomes of its visits,
one after the other, so that nothing it leaves out or fails to read has a part in what becomes of
the rest.
-/
namespace LazyFields
open Text

namespace ScanConfig

def sourceExtensions (config : ScanConfig) : List Text :=
  if config.extensions = [] then ["go".toList] else config.extensions

def sizeLimit (config : ScanConfig) : Nat :=
  match config.maxFileSize with
  | some n => n.toNat
  | none => 10 * 2 ^ 20

theorem extensions_settings (config : ScanConfig) :
    config.settings.extensions = config.sourceExtensions := by
  simp only [settings, sourceExtensions, List.isEmpty_iff]
  rfl

theorem maxFileSize_settings (config : ScanConfig) :
    config.settings.maxFileSize.toNat = config.sizeLimit := by
  rw [settings, sizeLimit]
  cases config.maxFileSize <;> rfl

end ScanConfig

/-- The name at the end of a path is a text that ends with a point and one of the extensions. -/
def NamesSource (extensions : List Text) (path : List UInt8) : Prop :=
  ∃ name, Path.fileName? path = some (Utf8.encode name).data.toList ∧
    ∃ e ∈ extensions, ('.' :: e.dropWhile (· == '.')) <:+ name

theorem namesSource_iff {extensions : List Text} {path : List UInt8} :
    NamesSource extensions path ↔ ∃ name ∈ (Path.fileName? path).bind Utf8.decode?,
      ∃ e ∈ extensions, ('.' :: e.dropWhile (· == '.')) <:+ name := by
  refine exists_congr fun name => and_congr_left fun _ => ?_
  rw [Option.mem_def, Option.bind_eq_some_iff]
  constructor
  · exact fun named => ⟨_, named, Utf8.decode?_encode name⟩
  · rintro ⟨bytes, named, read⟩
    rw [named, Utf8.decode?_eq_some_iff.1 read]

instance (extensions : List Text) (path : List UInt8) : Decidable (NamesSource extensions path) :=
  decidable_of_iff _ namesSource_iff.symm

theorem Scan.isSource_iff {settings : ScanSettings} {path : List UInt8} :
    Scan.isSource settings path = true ↔ NamesSource settings.extensions path := by
  rw [isSource, namesSource_iff]
  cases (Path.fileName? path).bind Utf8.decode? with
  | none => simp
  | some name => simp [suffixes]

namespace Visit

def IsSource (extensions : List Text) : Visit → Prop
  | file path _ _ => NamesSource extensions path
  | _ => False

/-- The visit comes across a source of more bytes than a scan reads. -/
def IsTooLarge (extensions : List Text) (max : Nat) : Visit → Prop
  | file path (.ok size) _ => NamesSource extensions path ∧ max < size
  | _ => False

instance (extensions : List Text) : DecidablePred (IsSource extensions)
  | file path _ _ => inferInstanceAs (Decidable (NamesSource extensions path))
  | other _ => inferInstanceAs (Decidable False)
  | fault _ => inferInstanceAs (Decidable False)

instance (extensions : List Text) (max : Nat) : DecidablePred (IsTooLarge extensions max)
  | file path (.ok size) _ =>
    inferInstanceAs (Decidable (NamesSource extensions path ∧ max < size))
  | file _ (.error _) _ => inferInstanceAs (Decidable False)
  | other _ => inferInstanceAs (Decidable False)
  | fault _ => inferInstanceAs (Decidable False)

end Visit

namespace Scan

variable {settings : ScanSettings} {rules : NamingRules} {root : Text} {extensions : List Text}
  {max : Nat}

inductive Outcome where
  | passed
  | fault (detail : Text)
  | tooLarge (path : List UInt8) (size : Nat)
  | unreadable (path : List UInt8) (cause : SystemError)
  | read (bytes : ByteArray)

namespace Outcome

def isTooLarge : Outcome → Bool
  | tooLarge _ _ => true
  | _ => false

def isUnreadable : Outcome → Bool
  | unreadable _ _ => true
  | _ => false

def isSource : Outcome → Bool
  | tooLarge _ _ | unreadable _ _ | read _ => true
  | _ => false

def bytes? : Outcome → Option ByteArray
  | read bytes => some bytes
  | _ => none

def error? (root : Text) (max : Nat) : Outcome → Option ScanError
  | fault detail => some (.walk root detail)
  | tooLarge path size => some (.tooLarge (Utf8.decodeLenient path) size max)
  | unreadable path cause => some (.unreadable (Utf8.decodeLenient path) cause)
  | _ => none

end Outcome

/-- What becomes of a visit, by its path, its size and its bytes. -/
inductive Becomes (extensions : List Text) (max : Nat) : Visit → Outcome → Prop where
  | other (path : List UInt8) : Becomes extensions max (.other path) .passed
  | fault (detail : Text) : Becomes extensions max (.fault detail) (.fault detail)
  | foreign {path : List UInt8} (size : Except SystemError Nat)
      (bytes : Except SystemError ByteArray) (foreign : ¬NamesSource extensions path) :
      Becomes extensions max (.file path size bytes) .passed
  | unmeasured {path : List UInt8} (cause : SystemError) (bytes : Except SystemError ByteArray)
      (source : NamesSource extensions path) :
      Becomes extensions max (.file path (.error cause) bytes) (.unreadable path cause)
  | tooLarge {path : List UInt8} {size : Nat} (bytes : Except SystemError ByteArray)
      (source : NamesSource extensions path) (large : max < size) :
      Becomes extensions max (.file path (.ok size) bytes) (.tooLarge path size)
  | unreadable {path : List UInt8} {size : Nat} (cause : SystemError)
      (source : NamesSource extensions path) (small : size ≤ max) :
      Becomes extensions max (.file path (.ok size) (.error cause)) (.unreadable path cause)
  | read {path : List UInt8} {size : Nat} (bytes : ByteArray)
      (source : NamesSource extensions path) (small : size ≤ max) :
      Becomes extensions max (.file path (.ok size) (.ok bytes)) (.read bytes)

theorem exists_becomes (extensions : List Text) (max : Nat) (v : Visit) :
    ∃ o, Becomes extensions max v o := by
  cases v with
  | other path => exact ⟨_, .other path⟩
  | fault detail => exact ⟨_, .fault detail⟩
  | file path size bytes =>
    by_cases source : NamesSource extensions path
    · cases size with
      | error cause => exact ⟨_, .unmeasured cause bytes source⟩
      | ok size =>
        rcases Nat.lt_or_ge max size with large | small
        · exact ⟨_, .tooLarge bytes source large⟩
        · cases bytes with
          | error cause => exact ⟨_, .unreadable cause source small⟩
          | ok bytes => exact ⟨_, .read bytes source small⟩
    · exact ⟨_, .foreign size bytes source⟩

theorem Becomes.unique {v : Visit} {o o' : Outcome} (h : Becomes extensions max v o)
    (h' : Becomes extensions max v o') : o = o' := by
  cases h with
  | other => cases h'; rfl
  | fault => cases h'; rfl
  | foreign _ _ foreign =>
    cases h' with
    | foreign => rfl
    | unmeasured _ _ source | tooLarge _ source | unreadable _ source | read _ source =>
      exact absurd source foreign
  | unmeasured _ _ source =>
    cases h' with
    | foreign _ _ foreign => exact absurd source foreign
    | unmeasured => rfl
  | tooLarge _ source large =>
    cases h' with
    | foreign _ _ foreign => exact absurd source foreign
    | tooLarge => rfl
    | unreadable _ _ small | read _ _ small => exact absurd large (Nat.not_lt.2 small)
  | unreadable _ source small =>
    cases h' with
    | foreign _ _ foreign => exact absurd source foreign
    | tooLarge _ _ large => exact absurd large (Nat.not_lt.2 small)
    | unreadable => rfl
  | read _ source small =>
    cases h' with
    | foreign _ _ foreign => exact absurd source foreign
    | tooLarge _ _ large => exact absurd large (Nat.not_lt.2 small)
    | read => rfl

theorem exists_forall₂_becomes (extensions : List Text) (max : Nat) (visits : List Visit) :
    ∃ outcomes, List.Forall₂ (Becomes extensions max) visits outcomes := by
  induction visits with
  | nil => exact ⟨[], .nil⟩
  | cons v visits ih =>
    obtain ⟨o, becomes⟩ := exists_becomes extensions max v
    obtain ⟨outcomes, rest⟩ := ih
    exact ⟨o :: outcomes, .cons becomes rest⟩

/-- What a scan adds from one of its states to another. -/
structure Accounts (settings : ScanSettings) (rules : NamingRules) (root : Text)
    (outcomes : List Outcome) (s t : Scan) : Prop where
  scanned : t.stats.scanned = s.stats.scanned + (outcomes.filterMap Outcome.bytes?).length
  tooLarge : t.stats.tooLarge = s.stats.tooLarge + outcomes.countP Outcome.isTooLarge
  unreadable : t.stats.unreadable = s.stats.unreadable + outcomes.countP Outcome.isUnreadable
  bytesRead : t.stats.bytesRead =
    s.stats.bytesRead + ((outcomes.filterMap Outcome.bytes?).map ByteArray.size).sum
  errors : t.stats.errors = s.stats.errors ++
    (outcomes.filterMap (Outcome.error? root settings.maxFileSize.toNat)).map coded
  usage : t.usage = ((outcomes.filterMap Outcome.bytes?).map
    fun bytes => Utf8.decodeLenient bytes.data.toList).foldl
      (Usage.add settings.qualifier rules) s.usage

theorem Accounts.nil (s : Scan) : Accounts settings rules root [] s s :=
  ⟨rfl, rfl, rfl, rfl, (List.append_nil _).symm, rfl⟩

theorem Accounts.passed {s : Scan} : Accounts settings rules root [.passed] s s :=
  ⟨rfl, rfl, rfl, rfl, (List.append_nil _).symm, rfl⟩

theorem Accounts.append {xs ys : List Outcome} {s t u : Scan}
    (h : Accounts settings rules root xs s t) (h' : Accounts settings rules root ys t u) :
    Accounts settings rules root (xs ++ ys) s u where
  scanned := by simp [h'.scanned, h.scanned, Nat.add_assoc]
  tooLarge := by simp [h'.tooLarge, h.tooLarge, Nat.add_assoc]
  unreadable := by simp [h'.unreadable, h.unreadable, Nat.add_assoc]
  bytesRead := by simp [h'.bytesRead, h.bytesRead, Nat.add_assoc]
  errors := by simp [h'.errors, h.errors]
  usage := by simp [h'.usage, h.usage]

theorem accounts_push {v : Visit} {o : Outcome}
    (h : Becomes settings.extensions settings.maxFileSize.toNat v o) (s : Scan) :
    Accounts settings rules root [o] s (push settings rules root s v) := by
  cases h with
  | other path => exact .passed
  | fault detail => exact ⟨rfl, rfl, rfl, rfl, rfl, rfl⟩
  | foreign size bytes foreign =>
    simp only [push, if_neg (mt isSource_iff.1 foreign)]
    exact .passed
  | unmeasured cause bytes source =>
    simp only [push, if_pos (isSource_iff.2 source)]
    exact ⟨rfl, rfl, rfl, rfl, rfl, rfl⟩
  | tooLarge bytes source large =>
    simp only [push, if_pos (isSource_iff.2 source), if_pos large]
    exact ⟨rfl, rfl, rfl, rfl, rfl, rfl⟩
  | unreadable cause source small =>
    simp only [push, if_pos (isSource_iff.2 source), if_neg (Nat.not_lt.2 small)]
    exact ⟨rfl, rfl, rfl, rfl, rfl, rfl⟩
  | read bytes source small =>
    simp only [push, if_pos (isSource_iff.2 source), if_neg (Nat.not_lt.2 small)]
    exact ⟨rfl, rfl, rfl, rfl, (List.append_nil _).symm, rfl⟩

theorem accounts_foldl {visits : List Visit} {outcomes : List Outcome}
    (h : List.Forall₂ (Becomes settings.extensions settings.maxFileSize.toNat) visits outcomes)
    (s : Scan) :
    Accounts settings rules root outcomes s (visits.foldl (push settings rules root) s) := by
  induction h generalizing s with
  | nil => exact .nil s
  | cons becomes _ ih => exact (accounts_push becomes s).append (ih _)

theorem Becomes.isSource_iff {v : Visit} {o : Outcome} (h : Becomes extensions max v o) :
    v.IsSource extensions ↔ o.isSource = true := by
  cases h with
  | other | fault => exact iff_of_false id Bool.false_ne_true
  | foreign _ _ foreign => exact iff_of_false foreign Bool.false_ne_true
  | unmeasured _ _ source | tooLarge _ source | unreadable _ source | read _ source =>
    exact iff_of_true source rfl

theorem Becomes.isTooLarge_iff {v : Visit} {o : Outcome} (h : Becomes extensions max v o) :
    v.IsTooLarge extensions max ↔ o.isTooLarge = true := by
  cases h with
  | other | fault | unmeasured => exact iff_of_false id Bool.false_ne_true
  | foreign size _ foreign =>
    cases size with
    | error _ => exact iff_of_false id Bool.false_ne_true
    | ok _ => exact iff_of_false (fun h => foreign h.1) Bool.false_ne_true
  | tooLarge _ source large => exact iff_of_true ⟨source, large⟩ rfl
  | unreadable _ _ small | read _ _ small =>
    exact iff_of_false (fun h => Nat.not_lt.2 small h.2) Bool.false_ne_true

/-- As many visits as outcomes pass tests that say the same of a visit and of what becomes of it. -/
theorem countP_eq_of_becomes {p : Visit → Prop} [DecidablePred p] {q : Outcome → Bool}
    (same : ∀ {v o}, Becomes extensions max v o → (p v ↔ q o = true)) {visits : List Visit}
    {outcomes : List Outcome} (h : List.Forall₂ (Becomes extensions max) visits outcomes) :
    visits.countP (fun v => decide (p v)) = outcomes.countP q := by
  induction h with
  | nil => rfl
  | cons becomes _ ih => simp only [List.countP_cons, ih, decide_eq_true_iff, same becomes]

theorem countP_isSource (outcomes : List Outcome) :
    outcomes.countP Outcome.isSource = (outcomes.filterMap Outcome.bytes?).length +
      outcomes.countP Outcome.isTooLarge + outcomes.countP Outcome.isUnreadable := by
  induction outcomes with
  | nil => rfl
  | cons o outcomes ih =>
    simp only [List.countP_cons, List.filterMap_cons, ih]
    cases o with
    | passed | fault => rfl
    | tooLarge | unreadable | read =>
      simp only [Outcome.isSource, Outcome.isTooLarge, Outcome.isUnreadable, Outcome.bytes?,
        List.length_cons, Bool.false_eq_true, if_true, if_false]
      omega

def rejection? (pattern : Text) : Option ScanError :=
  match Ignore.Pattern.readExcluded pattern with
  | .ok _ => none
  | .error e => some (.ignorePattern pattern e.message)

/-- Every pattern that is none is noted, in the order in which they are given. -/
theorem readExcluded_errors (patterns : List Text) :
    (readExcluded patterns).2 = patterns.filterMap rejection? := by
  rw [List.filterMap_eq_flatMap_toList, List.flatMap_eq_foldl]
  refine (List.foldl_hom Prod.snd ?_).symm
  rintro ⟨good, bad⟩ t
  rw [rejection?]
  cases Ignore.Pattern.readExcluded t with
  | error e => rfl
  | ok p? =>
    cases p? with
    | none => exact List.append_nil bad
    | some p => exact List.append_nil bad

theorem excluded_errors {patterns : List Text}
    (h : Ignore.Pattern.checkLimits (readExcluded patterns).1 = .ok ()) :
    (excluded root patterns).2 = patterns.filterMap rejection? := by
  simp only [excluded, h, readExcluded_errors]

theorem foldl_note (es : List ScanError) (s : Scan) :
    es.foldl note s =
      { s with stats := { s.stats with errors := s.stats.errors ++ es.map coded } } := by
  induction es generalizing s with
  | nil => simp
  | cons e es ih =>
    rw [List.foldl_cons, ih]
    simp [note]

end Scan

namespace Scanner
variable {refusal? : Text → Option Text} {config : ScanConfig}

theorem new_of_refusal {detail : Text} (refusal : refusal? config.settings.qualifier = some detail)
    (rules : NamingRules) :
    new refusal? config rules = .error (.qualifier config.settings.qualifier detail) := by
  simp only [new, refusal]

theorem new_of_accepted (accepted : refusal? config.settings.qualifier = none)
    (rules : NamingRules) : new refusal? config rules = .ok ⟨config.settings, rules⟩ := by
  simp only [new, accepted]

end Scanner

/-- There is a scanner exactly if the namespace is not refused.  What it scans it accounts for, each
visit by itself and in the order of the walk.  Every source is read, too large or unreadable, and it
is too large exactly when it has more bytes than the configuration allows.  The errors are those in
the patterns, in their order, and then one for each visit that is a fault or a source too large or
unreadable.  The scan finds what is found in each source that is read, and nothing else. -/
theorem scanner_accounts (refusal? : Text → Option Text) (config : ScanConfig)
    (rules : NamingRules) (root : Text)
    (h : Ignore.Pattern.checkLimits (Scan.readExcluded config.extraIgnore).1 = .ok ()) :
    let qualifier := config.qualifier.getD "pogo".toList
    (∀ detail, refusal? qualifier = some detail →
      Scanner.new refusal? config rules = .error (.qualifier qualifier detail)) ∧
    (refusal? qualifier = none → ∃ scanner, Scanner.new refusal? config rules = .ok scanner ∧
      ∀ visits, let scan := scanner.scanVisits root visits
        ∃ outcomes, List.Forall₂ (Scan.Becomes config.sourceExtensions config.sizeLimit) visits
            outcomes ∧
          scan.stats.scanned + scan.stats.tooLarge + scan.stats.unreadable =
            visits.countP (fun v => decide (v.IsSource config.sourceExtensions)) ∧
          scan.stats.tooLarge = visits.countP
            (fun v => decide (v.IsTooLarge config.sourceExtensions config.sizeLimit)) ∧
          scan.stats.unreadable = outcomes.countP Scan.Outcome.isUnreadable ∧
          scan.stats.scanned = (outcomes.filterMap Scan.Outcome.bytes?).length ∧
          scan.stats.bytesRead =
            ((outcomes.filterMap Scan.Outcome.bytes?).map ByteArray.size).sum ∧
          scan.stats.errors = (config.extraIgnore.filterMap Scan.rejection? ++
            outcomes.filterMap (Scan.Outcome.error? root config.sizeLimit)).map coded ∧
          ∀ name,
            (name ∈ scan.usage.accessors ↔ ∃ bytes ∈ outcomes.filterMap Scan.Outcome.bytes?,
              name ∈ (Usage.add qualifier rules {}
                (Utf8.decodeLenient bytes.data.toList)).accessors) ∧
            (name ∈ scan.usage.types ↔ ∃ bytes ∈ outcomes.filterMap Scan.Outcome.bytes?,
              name ∈ (Usage.add qualifier rules {}
                (Utf8.decodeLenient bytes.data.toList)).types)) := by
  intro qualifier
  refine ⟨fun detail refusal => Scanner.new_of_refusal refusal rules, fun accepted => ?_⟩
  refine ⟨_, Scanner.new_of_accepted accepted rules, fun visits => ?_⟩
  intro scan
  obtain ⟨outcomes, becomes⟩ :=
    Scan.exists_forall₂_becomes config.sourceExtensions config.sizeLimit visits
  have accounts : Scan.Accounts config.settings rules root outcomes
      ((config.extraIgnore.filterMap Scan.rejection?).foldl Scan.note {}) scan := by
    rw [← Scan.excluded_errors h]
    rw [← config.extensions_settings, ← config.maxFileSize_settings] at becomes
    exact Scan.accounts_foldl becomes _
  rw [Scan.foldl_note] at accounts
  obtain ⟨scanned, tooLarge, unreadable, bytesRead, errors, usage⟩ := accounts
  simp only [Nat.zero_add, List.nil_append] at scanned tooLarge unreadable bytesRead errors
  refine ⟨outcomes, becomes, ?_, ?_, unreadable, scanned, bytesRead, ?_, fun name => ?_⟩
  · rw [scanned, tooLarge, unreadable, ← Scan.countP_isSource]
    exact (Scan.countP_eq_of_becomes Scan.Becomes.isSource_iff becomes).symm
  · rw [tooLarge]
    exact (Scan.countP_eq_of_becomes Scan.Becomes.isTooLarge_iff becomes).symm
  · rw [errors, config.maxFileSize_settings, List.map_append]
  · rw [usage]
    refine ⟨mem_ofSources_accessors_iff_add.trans ?_, mem_ofSources_types_iff_add.trans ?_⟩
    · simp only [List.mem_map, exists_exists_and_eq_and]
      rfl
    · simp only [List.mem_map, exists_exists_and_eq_and]
      rfl

/-- One of the patterns to exclude is none, and sources of up to eight bytes are read. -/
def mixedScan : ScanConfig := { extraIgnore := ["[".toList, "out".toList], maxFileSize := some 8 }

/-- The name of a file that ends like that of a source behind a byte that is no text. -/
def foreignName : List UInt8 := 0xFF :: Walk.bytesOf ".go".toList

def mixedWalk : List Visit :=
  let source (t : Text) : Except SystemError ByteArray := .ok (Utf8.encode t)
  [.fault "loop".toList,
    .file (Walk.bytesOf "a.go".toList) (.ok 7) (source ".GetA()".toList),
    .other (Walk.bytesOf "d".toList),
    .file (Walk.bytesOf "d/b.go".toList) (.ok 9) (source " .GetB() ".toList),
    .file (Walk.bytesOf "d/c.go".toList) (.error .notFound) (.error .notFound),
    .file (Walk.bytesOf "d/d.md".toList) (.ok 7) (source ".GetD()".toList),
    .file (Walk.bytesOf "e.go".toList) (.ok 7) (.error .isDirectory),
    .file (Walk.bytesOf "f.go".toList) (.ok 7) (source ".GetF()".toList),
    .file foreignName (.ok 7) (source ".GetX()".toList)]

/-- The last source is read like the first one, and there is one error for each of the others, for
the loop and for the pattern. -/
theorem accounts_of_mixedWalk :
    Ignore.Pattern.checkLimits (Scan.readExcluded mixedScan.extraIgnore).1 = .ok () ∧
    ∃ scanner, Scanner.new qualifierRefusal? mixedScan ({} : NamingConfig).rules = .ok scanner ∧
      let scan := scanner.scanVisits "r".toList mixedWalk
      scan.stats.scanned + scan.stats.tooLarge + scan.stats.unreadable = 5 ∧
      scan.stats.tooLarge = 1 ∧ scan.stats.bytesRead = 14 ∧
      scan.stats.errors =
        ([.ignorePattern "[".toList
            "error parsing glob '![': unclosed character class; missing ']'".toList,
          .walk "r".toList "loop".toList, .tooLarge "d/b.go".toList 9 8,
          .unreadable "d/c.go".toList .notFound,
          .unreadable "e.go".toList .isDirectory] : List ScanError).map coded ∧
      "A".toList ∈ scan.usage.accessors ∧ "F".toList ∈ scan.usage.accessors ∧
      "B".toList ∉ scan.usage.accessors := by
  have limits : Ignore.Pattern.checkLimits (Scan.readExcluded mixedScan.extraIgnore).1 = .ok () :=
    rfl
  have accepted : qualifierRefusal? (mixedScan.qualifier.getD "pogo".toList) = none := by
    decide +kernel
  obtain ⟨scanner, made, account⟩ :=
    (scanner_accounts qualifierRefusal? mixedScan ({} : NamingConfig).rules "r".toList limits).2
      accepted
  obtain ⟨outcomes, becomes, sources, large, -, -, bytes, errors, found⟩ := account mixedWalk
  let Becomes := Scan.Becomes mixedScan.sourceExtensions mixedScan.sizeLimit
  have given : List.Forall₂ Becomes mixedWalk
      [.fault "loop".toList, .read (Utf8.encode ".GetA()".toList), .passed,
        .tooLarge (Walk.bytesOf "d/b.go".toList) 9,
        .unreadable (Walk.bytesOf "d/c.go".toList) .notFound, .passed,
        .unreadable (Walk.bytesOf "e.go".toList) .isDirectory,
        .read (Utf8.encode ".GetF()".toList), .passed] :=
    .cons (.fault _) <| .cons (.read _ (by decide +kernel) (by decide)) <| .cons (.other _) <|
      .cons (.tooLarge _ (by decide +kernel) (by decide)) <|
      .cons (.unmeasured _ _ (by decide +kernel)) <| .cons (.foreign _ _ (by decide +kernel)) <|
      .cons (.unreadable _ (by decide +kernel) (by decide)) <|
      .cons (.read _ (by decide +kernel) (by decide)) <|
      .cons (.foreign _ _ (by decide +kernel)) .nil
  have unique : Relator.RightUnique Becomes := fun _ _ _ => Scan.Becomes.unique
  obtain rfl := unique.forall₂ becomes given
  refine ⟨limits, scanner, made, sources.trans (by decide +kernel), large.trans (by decide +kernel),
    bytes.trans (by decide +kernel), errors.trans (by decide +kernel), ?_, ?_, ?_⟩
  · exact (found _).1.2 ⟨_, List.mem_cons_self, by decide +kernel⟩
  · exact (found _).1.2 ⟨_, List.mem_cons_of_mem _ List.mem_cons_self, by decide +kernel⟩
  · refine mt (found _).1.1 ?_
    decide +kernel

/-- The visit comes across a file whose name has the bytes of a source's at its end. -/
def Visit.EndsLikeSource (extensions : List Text) : Visit → Prop
  | file path _ _ => ∃ name ∈ Path.fileName? path,
      ∃ e ∈ extensions, (Utf8.encode ('.' :: e.dropWhile (· == '.'))).data.toList <:+ name
  | _ => False

instance (extensions : List Text) : DecidablePred (Visit.EndsLikeSource extensions)
  | .file path _ _ => inferInstanceAs (Decidable (∃ name ∈ Path.fileName? path,
      ∃ e ∈ extensions, (Utf8.encode ('.' :: e.dropWhile (· == '.'))).data.toList <:+ name))
  | .other _ => inferInstanceAs (Decidable False)
  | .fault _ => inferInstanceAs (Decidable False)

/-- A file whose name ends like that of a source is neither counted nor noted when its name is no
text, and nothing is scanned at all with a namespace that is too long. -/
theorem unaccounted_of_foreignName :
    let rules := ({} : NamingConfig).rules
    let foreign : Visit := .file foreignName (.ok 0) (.ok ByteArray.empty)
    (∃ scanner, Scanner.new qualifierRefusal? {} rules = .ok scanner ∧
      let stats := (scanner.scanVisits "r".toList [foreign]).stats
      stats.scanned + stats.tooLarge + stats.unreadable = 0 ∧ stats.errors = [] ∧
        foreign.EndsLikeSource ({} : ScanConfig).sourceExtensions) ∧
    (∃ e, Scanner.new qualifierRefusal? { qualifier := some overlong } rules = .error e) ∧
    ¬∀ (config : ScanConfig) (visits : List Visit),
      Ignore.Pattern.checkLimits (Scan.readExcluded config.extraIgnore).1 = .ok () →
      ∃ scanner, Scanner.new qualifierRefusal? config rules = .ok scanner ∧
        let stats := (scanner.scanVisits "r".toList visits).stats
        stats.scanned + stats.tooLarge + stats.unreadable =
          visits.countP fun v => decide (v.EndsLikeSource config.sourceExtensions) := by
  intro rules foreign
  obtain ⟨detail, refusal⟩ := exists_refusal_overlong
  have made : Scanner.new qualifierRefusal? {} rules = .ok ⟨({} : ScanConfig).settings, rules⟩ :=
    Scanner.new_of_accepted (by decide +kernel) rules
  have refused (config : ScanConfig) (set : config.settings.qualifier = overlong) :
      ∃ e, Scanner.new qualifierRefusal? config rules = .error e :=
    ⟨_, Scanner.new_of_refusal (set ▸ refusal) rules⟩
  refine ⟨⟨_, made, by decide +kernel, by decide +kernel, by decide +kernel⟩,
    refused _ rfl, fun account => ?_⟩
  obtain ⟨scanner, made', count⟩ := account {} [foreign] rfl
  obtain rfl := Except.ok.inj (made.symm.trans made')
  exact absurd count (by decide +kernel)

end LazyFields
