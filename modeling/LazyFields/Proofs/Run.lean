import LazyFields.Proofs.Scan
import LazyFields.Proofs.Tree
import LazyFields.Run

/-!
# What a run writes

A run has five ends, and a real run and a dry one come to the same.  Only one of them writes: when
there are candidates whose lines are not all marked yet, the schema file gets the annotated text.
All others leave the tree alone.
-/
namespace LazyFields
open Schema

theorem readSchema_of_error {tree : Tree} {path : Text} {cause : SystemError}
    (present : tree.has path = true) (read : tree.readText path = .error cause)
    (rules : NamingRules) : readSchema tree path rules = .error (.read path cause) := by
  rw [readSchema, if_pos present, read]

theorem readSchema_of_ok {tree : Tree} {path schema : Text} (present : tree.has path = true)
    (read : tree.readText path = .ok schema) (rules : NamingRules) :
    readSchema tree path rules = .ok (.read schema rules) := by
  rw [readSchema, if_pos present, read]

theorem annotateFile_of_ok {tree : Tree} {path schema : Text}
    (read : tree.readText path = .ok schema) (candidates : Candidates) (dryRun : Bool) :
    annotateFile tree path candidates dryRun =
      .ok ((annotate schema candidates).changes,
        if dryRun || (annotate schema candidates).changes == 0 then tree
        else tree.write path (Text.Utf8.encode (annotate schema candidates).text)) := by
  rw [annotateFile, read]

theorem markSelected_of_empty {scan : Scan} {model : Model}
    (empty : (select scan.usage.types model scan.usage.accessors).isEmpty = true) (tree : Tree)
    (path : Text) (dryRun : Bool) :
    markSelected tree path dryRun scan model = (.ok (.of dryRun scan model none), tree) := by
  rw [markSelected, if_pos empty]

theorem markSelected_of_inhabited {scan : Scan} {model : Model} {tree : Tree} {path schema : Text}
    (inhabited : (select scan.usage.types model scan.usage.accessors).isEmpty = false)
    (read : tree.readText path = .ok schema) (dryRun : Bool) :
    let a := annotate schema (select scan.usage.types model scan.usage.accessors)
    markSelected tree path dryRun scan model =
      (.ok (.of dryRun scan model (some a.changes)),
        if dryRun || a.changes == 0 then tree else tree.write path (Text.Utf8.encode a.text)) := by
  rw [markSelected, if_neg (by simp [inhabited]), annotateFile_of_ok read]

/-- The scan of a run, which takes its settings and rules from the configuration. -/
def scanFor (tree : Tree) (root : Text) (config : Config) : Scan :=
  .ofTree tree root config.scan.settings config.naming.rules

theorem scan_eq_scanFor (tree : Tree) (root : Text) (config : Config) :
    Scanner.scan ⟨config.scan.settings, config.naming.rules⟩ tree root = scanFor tree root config :=
  rfl

def selectedIn (tree : Tree) (root : Text) (config : Config) (schema : Text) : Candidates :=
  let usage := (scanFor tree root config).usage
  select usage.types (.read schema config.naming.rules) usage.accessors

variable {refusal? : Text → Option Text} {tree : Tree} {root : Text} {config : Config}
  {schema : Text}

theorem runWith_of_absent (refusal? : Text → Option Text)
    (absent : tree.has (config.schema.locate root) = false) (dryRun : Bool) :
    runWith refusal? tree root config dryRun =
      ⟨[], .error (.schema (.missing (config.schema.locate root))), tree⟩ := by
  simp only [runWith, absent, Bool.false_eq_true, if_false]

theorem runWith_of_refusal {detail : Text} (present : tree.has (config.schema.locate root) = true)
    (refusal : refusal? config.scan.settings.qualifier = some detail) (dryRun : Bool) :
    runWith refusal? tree root config dryRun =
      ⟨[.started root (config.schema.locate root) dryRun],
        .error (.scan (.qualifier config.scan.settings.qualifier detail)), tree⟩ := by
  simp only [runWith, if_pos present, Scanner.new_of_refusal refusal]

theorem runWith_of_unread {cause : SystemError}
    (present : tree.has (config.schema.locate root) = true)
    (accepted : refusal? config.scan.settings.qualifier = none)
    (read : tree.readText (config.schema.locate root) = .error cause) (dryRun : Bool) :
    runWith refusal? tree root config dryRun =
      ⟨[.started root (config.schema.locate root) dryRun, (scanFor tree root config).event],
        .error (.schema (.read (config.schema.locate root) cause)), tree⟩ := by
  simp only [runWith, if_pos present, Scanner.new_of_accepted accepted, scan_eq_scanFor,
    readSchema_of_error present read]

def eventsOn (tree : Tree) (root : Text) (config : Config) (schema : Text) (dryRun : Bool) :
    List Event :=
  .started root (config.schema.locate root) dryRun :: (scanFor tree root config).event ::
    selectionEvents (scanFor tree root config).usage (.read schema config.naming.rules)

def reportOn (tree : Tree) (root : Text) (config : Config) (schema : Text) (dryRun : Bool) :
    Option Nat → Report :=
  .of dryRun (scanFor tree root config) (.read schema config.naming.rules)

@[simp] theorem reportOn_candidates (dryRun : Bool) (changes : Option Nat) :
    (reportOn tree root config schema dryRun changes).candidates =
      selectedIn tree root config schema := by
  rw [reportOn, Report.of, selectedIn]

@[simp] theorem reportOn_changes (dryRun : Bool) (changes : Option Nat) :
    (reportOn tree root config schema dryRun changes).changes = changes := by
  rw [reportOn, Report.of]

theorem runWith_of_empty (present : tree.has (config.schema.locate root) = true)
    (accepted : refusal? config.scan.settings.qualifier = none)
    (read : tree.readText (config.schema.locate root) = .ok schema)
    (empty : (selectedIn tree root config schema).isEmpty = true) (dryRun : Bool) :
    runWith refusal? tree root config dryRun =
      ⟨eventsOn tree root config schema dryRun, .ok (reportOn tree root config schema dryRun none),
        tree⟩ := by
  simp only [runWith, if_pos present, Scanner.new_of_accepted accepted, scan_eq_scanFor,
    readSchema_of_ok present read, markSelected_of_empty empty]
  rfl

theorem runWith_of_inhabited (present : tree.has (config.schema.locate root) = true)
    (accepted : refusal? config.scan.settings.qualifier = none)
    (read : tree.readText (config.schema.locate root) = .ok schema)
    (inhabited : (selectedIn tree root config schema).isEmpty = false) (dryRun : Bool) :
    let a := annotate schema (selectedIn tree root config schema)
    runWith refusal? tree root config dryRun =
      ⟨eventsOn tree root config schema dryRun,
        .ok (reportOn tree root config schema dryRun (some a.changes)),
        if dryRun || a.changes == 0 then tree
        else tree.write (config.schema.locate root) (Text.Utf8.encode a.text)⟩ := by
  simp only [runWith, if_pos present, Scanner.new_of_accepted accepted, scan_eq_scanFor,
    readSchema_of_ok present read, markSelected_of_inhabited inhabited read]
  rfl

/-- The ways in which a run comes to its end, as a real run (`false`) and as a dry one (`true`):
there is no schema file, the namespace is refused, the schema cannot be read, nothing is selected,
or what is selected is marked. -/
inductive Ends (tree : Tree) (root : Text) (config : Config) (runs : Bool → RunResult) : Prop
  | missing (result : ∀ dryRun, runs dryRun =
      ⟨[], .error (.schema (.missing (config.schema.locate root))), tree⟩)
  | refused {detail : Text} (result : ∀ dryRun, runs dryRun =
      ⟨[.started root (config.schema.locate root) dryRun],
        .error (.scan (.qualifier config.scan.settings.qualifier detail)), tree⟩)
  | unread {cause : SystemError} (result : ∀ dryRun, runs dryRun =
      ⟨[.started root (config.schema.locate root) dryRun, (scanFor tree root config).event],
        .error (.schema (.read (config.schema.locate root) cause)), tree⟩)
  | unselected {schema : Text} (empty : (selectedIn tree root config schema).isEmpty = true)
      (result : ∀ dryRun, runs dryRun =
        ⟨eventsOn tree root config schema dryRun,
          .ok (reportOn tree root config schema dryRun none), tree⟩)
  | marked {schema : Text} (read : tree.readText (config.schema.locate root) = .ok schema)
      (inhabited : (selectedIn tree root config schema).isEmpty = false)
      (result : ∀ dryRun, runs dryRun =
        ⟨eventsOn tree root config schema dryRun,
          .ok (reportOn tree root config schema dryRun
            (some (annotate schema (selectedIn tree root config schema)).changes)),
          if dryRun || (annotate schema (selectedIn tree root config schema)).changes == 0 then tree
          else tree.write (config.schema.locate root)
            (Text.Utf8.encode (annotate schema (selectedIn tree root config schema)).text)⟩)

theorem ends (refusal? : Text → Option Text) (tree : Tree) (root : Text) (config : Config) :
    Ends tree root config (runWith refusal? tree root config) := by
  cases present : tree.has (config.schema.locate root) with
  | false => exact .missing (runWith_of_absent refusal? present)
  | true =>
    cases refusal : refusal? config.scan.settings.qualifier with
    | some detail => exact .refused (runWith_of_refusal present refusal)
    | none =>
      cases read : tree.readText (config.schema.locate root) with
      | error cause => exact .unread (runWith_of_unread present refusal read)
      | ok schema =>
        cases selected : (selectedIn tree root config schema).isEmpty with
        | true => exact .unselected selected (runWith_of_empty present refusal read selected)
        | false =>
          exact .marked read selected (runWith_of_inhabited present refusal read selected)

theorem changes_annotate_nil (c : Candidates) : (annotate [] c).changes = 0 := rfl

namespace Ends

variable {runs : Bool → RunResult}

/-- The dry run writes nothing.  For the rest it goes like the real run, but for the flag. -/
theorem dry_like_real (h : Ends tree root config runs) :
    (runs true).tree = tree ∧
    (runs true).outcome = (runs false).outcome.map (fun report => { report with dryRun := true }) ∧
    ((runs false).events = [] ∧ (runs true).events = [] ∨
      ∃ rest, (runs false).events = .started root (config.schema.locate root) false :: rest ∧
        (runs true).events = .started root (config.schema.locate root) true :: rest) := by
  cases h with
  | missing result =>
    rw [result, result]
    exact ⟨rfl, rfl, .inl ⟨rfl, rfl⟩⟩
  | refused result | unread result | unselected _ result | marked _ _ result =>
    rw [result, result]
    exact ⟨rfl, rfl, .inr ⟨_, rfl, rfl⟩⟩

/-- The real run leaves the tree alone and has nothing to mark, if it comes to a report, or it
writes the annotated text into the schema file. -/
theorem kept_or_replaced (h : Ends tree root config runs) :
    (runs false).tree = tree ∧
      (∀ report, (runs false).outcome = .ok report →
        report.candidates.isEmpty = true ∨ report.changes = some 0) ∨
    ∃ schema l report, tree.readText (config.schema.locate root) = .ok schema ∧
      tree.resolve (config.schema.locate root) = .ok l ∧ (runs false).outcome = .ok report ∧
      report.candidates = selectedIn tree root config schema ∧
      report.candidates.isEmpty = false ∧
      report.changes = some (annotate schema report.candidates).changes ∧
      (annotate schema report.candidates).changes ≠ 0 ∧
      tree.Replaced (runs false).tree l
        (Text.Utf8.encode (annotate schema report.candidates).text) := by
  cases h with
  | missing result | refused result | unread result =>
    left
    rw [result]
    exact ⟨rfl, by simp⟩
  | @unselected schema empty result =>
    left
    rw [result]
    refine ⟨rfl, ?_⟩
    rintro report ⟨⟩
    left
    rw [reportOn_candidates, empty]
  | @marked schema read inhabited result =>
    rw [result]
    by_cases zero : (annotate schema (selectedIn tree root config schema)).changes = 0
    · left
      refine ⟨by simp [zero], ?_⟩
      rintro report ⟨⟩
      right
      rw [reportOn_changes, zero]
    · right
      have text : schema ≠ [] := by
        rintro rfl
        exact zero (changes_annotate_nil _)
      obtain ⟨l, old, found, -⟩ := Tree.exists_file_of_readText read text
      refine ⟨schema, l, _, read, (Tree.find_eq_ok_iff.1 found).1, rfl, ?_⟩
      rw [reportOn_candidates, reportOn_changes, if_neg (by simpa using zero)]
      refine ⟨rfl, inhabited, rfl, zero, ?_⟩
      exact Tree.write_of_file found _

end Ends

/-- A run writes only if it is a real run that comes to a report with candidates and changes, and
then the annotated text into the schema file and nothing else.  A dry run has the result and the
events of the real run, but for the flag.  A run without a schema file has no event.  One whose
namespace is refused has the event of its start, and one whose schema file cannot be read, its
namespace being accepted, has those of its start and its scan and no other. -/
theorem runWith_writes (refusal? : Text → Option Text) (tree : Tree) (root : Text)
    (config : Config) :
    let path := config.schema.locate root
    let real := runWith refusal? tree root config false
    let dry := runWith refusal? tree root config true
    dry.tree = tree ∧
    (∀ e, real.outcome = .error e → real.tree = tree) ∧
    (∀ report, real.outcome = .ok report →
      report.candidates.isEmpty = true ∨ report.changes = some 0 → real.tree = tree) ∧
    (∀ report, real.outcome = .ok report →
      report.candidates.isEmpty = false → report.changes ≠ some 0 →
      ∃ schema l, tree.readText path = .ok schema ∧ tree.resolve path = .ok l ∧
        report.candidates = selectedIn tree root config schema ∧
        report.changes = some (annotate schema report.candidates).changes ∧
        tree.Replaced real.tree l (Text.Utf8.encode (annotate schema report.candidates).text) ∧
        real.tree.readText path = .ok (annotate schema report.candidates).text) ∧
    dry.outcome = real.outcome.map (fun report => { report with dryRun := true }) ∧
    (real.events = [] ∧ dry.events = [] ∨
      ∃ rest, real.events = .started root path false :: rest ∧
        dry.events = .started root path true :: rest) ∧
    (tree.has path = false →
      real.events = [] ∧ real.outcome = .error (.schema (.missing path))) ∧
    (∀ detail, tree.has path = true →
      refusal? config.scan.settings.qualifier = some detail →
      real.events = [.started root path false] ∧
        real.outcome = .error (.scan (.qualifier config.scan.settings.qualifier detail))) ∧
    (∀ cause, tree.has path = true → refusal? config.scan.settings.qualifier = none →
      tree.readText path = .error cause →
      real.events = [.started root path false, (scanFor tree root config).event] ∧
        real.outcome = .error (.schema (.read path cause))) := by
  intro path real dry
  obtain ⟨treeDry, outcomeDry, eventsDry⟩ := (ends refusal? tree root config).dry_like_real
  refine ⟨treeDry, ?_, ?_, ?_, outcomeDry, eventsDry, ?_, ?_, ?_⟩
  · intro e error
    rcases (ends refusal? tree root config).kept_or_replaced with
      ⟨same, -⟩ | ⟨_, _, _, -, -, done, -⟩
    · exact same
    · exact absurd (error.symm.trans done) (by simp)
  · intro report done unchanged
    rcases (ends refusal? tree root config).kept_or_replaced with
      ⟨same, -⟩ | ⟨_, _, report', -, -, done', -, inhabited, changes, more, -⟩
    · exact same
    · obtain rfl := Except.ok.inj (done.symm.trans done')
      rcases unchanged with empty | zero
      · exact absurd (inhabited.symm.trans empty) (by decide)
      · exact absurd (Option.some.inj (changes.symm.trans zero)) more
  · intro report done inhabited changed
    rcases (ends refusal? tree root config).kept_or_replaced with
      ⟨-, unchanged⟩ | ⟨schema, l, report', read, leads, done', candidates, -, changes, -, replaced⟩
    · rcases unchanged report done with empty | zero
      · exact absurd (inhabited.symm.trans empty) (by decide)
      · exact absurd zero changed
    · obtain rfl := Except.ok.inj (done.symm.trans done')
      exact ⟨schema, l, read, leads, candidates, changes, replaced, replaced.readText leads⟩
  · intro absent
    have result : real = _ := runWith_of_absent refusal? absent false
    rw [result]
    exact ⟨rfl, rfl⟩
  · intro detail present refusal
    have result : real = _ := runWith_of_refusal present refusal false
    rw [result]
    exact ⟨rfl, rfl⟩
  · intro cause present accepted read
    have result : real = _ := runWith_of_unread present accepted read false
    rw [result]
    exact ⟨rfl, rfl⟩

def usedTree : Tree where
  entries :=
    [(["vbase.proto".toList],
      .file (Text.Utf8.encode "message AProto \x7b\n  BProto b = 1;\n\x7d\n".toList)),
     (["a.go".toList], .file (Text.Utf8.encode "pogo.AProto".toList))]

def unreadTree : Tree where
  entries := [(["vbase.proto".toList], .directory)]

def named (qualifier : Text) : Config := { scan := { qualifier := some qualifier } }

theorem events_of_refusal {qualifier detail : Text}
    (refusal : qualifierRefusal? qualifier = some detail) (dryRun : Bool) :
    (run unreadTree "/".toList (named qualifier) dryRun).events =
      [.started "/".toList "/vbase.proto".toList dryRun] := by
  have present : unreadTree.has ((named qualifier).schema.locate "/".toList) = true := by rfl
  rw [run, runWith_of_refusal present refusal]
  rfl

theorem written_of_usedTree :
    let real (tree : Tree) (config : Config) := run tree "/".toList config false
    (real usedTree {}).tree.readText "/vbase.proto".toList =
      .ok "message AProto \x7b\n  BProto b = 1 [lazy = true];\n\x7d\n".toList ∧
    (real {} {}).events = [] ∧
    (real unreadTree {}).outcome =
      .error (.schema (.read "/vbase.proto".toList .isDirectory)) ∧
    (real unreadTree (named overlong)).events =
      [.started "/".toList "/vbase.proto".toList false] := by
  intro real
  refine ⟨?_, ?_, ?_, ?_⟩
  · let schema : Text := "message AProto \x7b\n  BProto b = 1;\n\x7d\n".toList
    have outcome : (real usedTree {}).outcome.toOption.map
        (fun report => (report.candidates.isEmpty, report.changes)) = some (false, some 1) := by
      decide +kernel
    obtain ⟨report, done⟩ : ∃ report, (real usedTree {}).outcome = .ok report := by
      cases result : (real usedTree {}).outcome with
      | ok report => exact ⟨report, rfl⟩
      | error e => simp [result, Except.toOption] at outcome
    rw [done] at outcome
    obtain ⟨inhabited, changes⟩ := Prod.mk.inj (Option.some.inj outcome)
    obtain ⟨-, -, -, writes, -⟩ := runWith_writes qualifierRefusal? usedTree "/".toList {}
    obtain ⟨read, l, hread, -, candidates, -, -, written⟩ :=
      writes report done inhabited (by rw [changes]; decide)
    have given : usedTree.readText "/vbase.proto".toList = .ok schema := by rfl
    obtain rfl := Except.ok.inj (given.symm.trans hread)
    have marked : (annotate schema (selectedIn usedTree "/".toList {} schema)).text =
        "message AProto \x7b\n  BProto b = 1 [lazy = true];\n\x7d\n".toList := by
      decide +kernel
    rw [candidates, marked] at written
    exact written
  · obtain ⟨-, -, -, -, -, -, missing, -⟩ := runWith_writes qualifierRefusal? {} "/".toList {}
    exact (missing (by decide)).1
  · obtain ⟨-, -, -, -, -, -, -, -, unread⟩ :=
      runWith_writes qualifierRefusal? unreadTree "/".toList {}
    exact (unread .isDirectory (by decide +kernel) (by decide +kernel) (by rfl)).2
  · have events {qualifier detail : Text} (refusal : qualifierRefusal? qualifier = some detail) :
        (real unreadTree (named qualifier)).events =
          [.started "/".toList "/vbase.proto".toList false] := by
      obtain ⟨-, -, -, -, -, -, -, refused, -⟩ :=
        runWith_writes qualifierRefusal? unreadTree "/".toList (named qualifier)
      exact (refused detail rfl refusal).1
    obtain ⟨detail, refusal⟩ := exists_refusal_overlong
    exact events refusal

/-- With a namespace that is too long there is no scan, and no event of one, whether or not the
schema can be read. -/
theorem unscanned_of_overlong :
    let path := "/vbase.proto".toList
    unreadTree.has path = true ∧ unreadTree.readText path = .error .isDirectory ∧
    (∀ dryRun, (run unreadTree "/".toList (named overlong) dryRun).events =
      [.started "/".toList path dryRun]) ∧
    ¬∀ (tree : Tree) (root : Text) (config : Config) (cause : SystemError),
      tree.has (config.schema.locate root) = true →
      tree.readText (config.schema.locate root) = .error cause →
      (run tree root config false).events =
        [.started root (config.schema.locate root) false, (scanFor tree root config).event] := by
  intro path
  have present : unreadTree.has path = true := by decide +kernel
  have unread : unreadTree.readText path = .error .isDirectory := by rfl
  have events (dryRun : Bool) : (run unreadTree "/".toList (named overlong) dryRun).events =
      [.started "/".toList path dryRun] := by
    obtain ⟨detail, refusal⟩ := exists_refusal_overlong
    exact events_of_refusal refusal dryRun
  refine ⟨present, unread, events, fun scanned => ?_⟩
  have both := scanned unreadTree "/".toList (named overlong) .isDirectory present unread
  rw [events] at both
  simp at both

end LazyFields
