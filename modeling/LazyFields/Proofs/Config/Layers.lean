import LazyFields.Proofs.Text.Lines
import LazyFields.Run

/-!
# Layers and checks of a configuration

The configuration of a run is told field by field: what the environment says, else what the project
file says, else nothing.  The checks look at this configuration alone, and the error of a run is
that of the first field, in the order of the checks, that offends.
-/
namespace LazyFields
open Text

namespace Environment

/-- The text `e` is what an entry names: the dots at the start of the entry without its blanks do
not belong to it. -/
def Entered (entry e : Text) : Prop :=
  ∃ lead dots tail, Blank lead ∧ Blank tail ∧ (∀ c ∈ dots, c = '.') ∧ e.head? ≠ some '.' ∧
    Tight (dots ++ e) ∧ entry = lead ++ (dots ++ e) ++ tail

/-- The texts `es` are the extensions in a list: what its entries between commas name, but for the
entries that name nothing. -/
def Lists (t : Text) (es : List Text) : Prop :=
  ∃ entries named, entries ≠ [] ∧ (∀ entry ∈ entries, ',' ∉ entry) ∧
    t = [','].intercalate entries ∧ List.Forall₂ Entered entries named ∧
    es = named.filter (· ≠ [])

theorem dropWhile_dots_eq_iff {t e : Text} :
    t.dropWhile (· == '.') = e ↔
      ∃ dots : Text, (∀ c ∈ dots, c = '.') ∧ e.head? ≠ some '.' ∧ t = dots ++ e := by
  constructor
  · rintro rfl
    refine ⟨t.takeWhile (· == '.'), ?_, ?_, List.takeWhile_append_dropWhile.symm⟩
    · intro c hc
      simpa using List.all_eq_true.1 List.all_takeWhile c hc
    · intro first
      have := List.head?_dropWhile_not (· == '.') t
      rw [first] at this
      simp at this
  · rintro ⟨dots, inside, stop, rfl⟩
    apply dropWhile_append_stop
    · intro c hc
      rw [inside c hc]
      rfl
    · intro c hc
      rw [beq_eq_false_iff_ne]
      rintro rfl
      exact stop hc

theorem entered_iff {entry e : Text} :
    Entered entry e ↔ (trim entry).dropWhile (· == '.') = e := by
  rw [dropWhile_dots_eq_iff]
  constructor
  · rintro ⟨lead, dots, tail, hlead, htail, inside, stop, tight, written⟩
    exact ⟨dots, inside, stop, trim_eq_iff.2 ⟨tight, lead, tail, hlead, htail, written⟩⟩
  · rintro ⟨dots, inside, stop, trimmed⟩
    obtain ⟨tight, lead, tail, hlead, htail, written⟩ := trim_eq_iff.1 trimmed
    exact ⟨lead, dots, tail, hlead, htail, inside, stop, tight, written⟩

theorem forall₂_entered_iff {entries named : List Text} :
    List.Forall₂ Entered entries named ↔
      named = entries.map fun entry => (trim entry).dropWhile (· == '.') := by
  induction entries generalizing named with
  | nil => simp
  | cons entry entries ih =>
    rw [List.forall₂_cons_left_iff, List.map_cons]
    constructor
    · rintro ⟨e, rest, head, tails, rfl⟩
      rw [entered_iff.1 head, ih.1 tails]
    · rintro rfl
      exact ⟨_, _, entered_iff.2 rfl, ih.2 rfl, rfl⟩

/-- A list is read in one way only. -/
theorem lists_iff {t : Text} {es : List Text} : Lists t es ↔ es = extensionList t := by
  have kept (named : List Text) :
      named.filter (fun e => decide (e ≠ [])) = named.filter (!·.isEmpty) := by
    apply List.filter_congr
    intro e _
    cases e <;> rfl
  constructor
  · rintro ⟨entries, named, ne, apart, joined, reads, rfl⟩
    rw [extensionList, splitOn_eq_iff.2 ⟨ne, apart, joined⟩, forall₂_entered_iff.1 reads, kept]
  · rintro rfl
    obtain ⟨ne, apart, joined⟩ := splitOn_eq_iff.1 (rfl : splitOn ',' t = splitOn ',' t)
    exact ⟨_, _, ne, apart, joined, forall₂_entered_iff.2 rfl, (kept _).symm⟩

theorem not_blank_of_lists {t e : Text} {es : List Text} (h : Lists t es) (he : e ∈ es) :
    ¬Blank e := by
  obtain ⟨entries, named, -, -, -, reads, rfl⟩ := h
  rw [List.mem_filter, decide_eq_true_eq] at he
  obtain ⟨member, ne⟩ := he
  obtain ⟨entry, -, read⟩ : ∃ entry ∈ entries, Entered entry e := by
    rw [forall₂_entered_iff] at reads
    rw [reads, List.mem_map] at member
    obtain ⟨entry, hentry, he⟩ := member
    exact ⟨entry, hentry, entered_iff.2 he⟩
  obtain ⟨-, dots, -, -, -, -, -, tight, -⟩ := read
  intro blank
  have last : (dots ++ e).getLast? = some (e.getLast ne) := by
    rw [List.getLast?_append_of_ne_nil _ ne, List.getLast?_eq_some_getLast ne]
  have visible := tight _ (.inr last)
  rw [blank _ (List.getLast_mem ne)] at visible
  contradiction

end Environment

namespace Config

/-- A value that is set stands in the place of the one below it. -/
def Over {α : Type} (set below result : Option α) : Prop :=
  (∀ v, set = some v → result = some v) ∧ (set = none → result = below)

theorem over_iff {α : Type} {set below result : Option α} :
    Over set below result ↔ result = set.or below := by
  cases set <;> simp [Over]

/-- The configuration is the one of a project file with the variables of an environment over it. -/
structure Layered (env : Environment) (file c : Config) : Prop where
  path : Over env.schema file.schema.path c.schema.path
  qualifier : Over env.qualifier file.scan.qualifier c.scan.qualifier
  listed : ∀ t es, env.extensions = some t → Environment.Lists t es → es ≠ [] →
    c.scan.extensions = es
  unlisted : (∀ t, env.extensions = some t → Environment.Lists t []) →
    c.scan.extensions = file.scan.extensions
  isTrue : env.respectIgnore = some "true".toList → c.scan.respectIgnoreFiles = some true
  isFalse : env.respectIgnore = some "false".toList → c.scan.respectIgnoreFiles = some false
  noTruth : env.respectIgnore ≠ some "true".toList → env.respectIgnore ≠ some "false".toList →
    c.scan.respectIgnoreFiles = file.scan.respectIgnoreFiles
  extraIgnore : c.scan.extraIgnore = file.scan.extraIgnore
  maxFileSize : c.scan.maxFileSize = file.scan.maxFileSize
  followLinks : c.scan.followLinks = file.scan.followLinks
  naming : c.naming = file.naming

theorem overlay_extensions_of_lists {env : Environment} {file : Config} {t : Text}
    {es : List Text} (set : env.extensions = some t) (lists : Environment.Lists t es)
    (ne : es ≠ []) : (env.overlay file).scan.extensions = es := by
  rw [Environment.lists_iff] at lists
  simp only [Environment.overlay, set, Option.map_some, Option.getD_some, ← lists]

theorem overlay_extensions_of_unlisted {env : Environment} {file : Config}
    (unlisted : ∀ t, env.extensions = some t → Environment.Lists t []) :
    (env.overlay file).scan.extensions = file.scan.extensions := by
  have none : (env.extensions.map Environment.extensionList).getD [] = [] := by
    cases set : env.extensions with
    | none => rfl
    | some t => exact (Environment.lists_iff.1 (unlisted t set)).symm
  simp only [Environment.overlay, none]

theorem overlay_respectIgnoreFiles {env : Environment} {file : Config} {t : Text} {b : Bool}
    (set : env.respectIgnore = some t) (truth : Environment.truth? t = some b) :
    (env.overlay file).scan.respectIgnoreFiles = some b := by
  simp only [Environment.overlay, set, Option.bind_some, truth, Option.some_or]

theorem truth?_eq_none {t : Text} (ht : t ≠ "true".toList) (hf : t ≠ "false".toList) :
    Environment.truth? t = none := by
  rw [Environment.truth?, if_neg ht, if_neg hf]

theorem layered_overlay (env : Environment) (file : Config) :
    Layered env file (env.overlay file) where
  path := over_iff.2 rfl
  qualifier := over_iff.2 rfl
  listed _ _ := overlay_extensions_of_lists
  unlisted := overlay_extensions_of_unlisted
  isTrue set := overlay_respectIgnoreFiles set rfl
  isFalse set := overlay_respectIgnoreFiles set rfl
  noTruth ht hf := by
    cases set : env.respectIgnore with
    | none => simp [Environment.overlay, set]
    | some t =>
      rw [set] at ht hf
      have none := truth?_eq_none (fun e => ht (e ▸ rfl)) fun e => hf (e ▸ rfl)
      simp [Environment.overlay, set, none]
  extraIgnore := rfl
  maxFileSize := rfl
  followLinks := rfl
  naming := rfl

theorem Layered.eq {env : Environment} {file c d : Config} (hc : Layered env file c)
    (hd : Layered env file d) : c = d := by
  have path : c.schema.path = d.schema.path :=
    (over_iff.1 hc.path).trans (over_iff.1 hd.path).symm
  have qualifier : c.scan.qualifier = d.scan.qualifier :=
    (over_iff.1 hc.qualifier).trans (over_iff.1 hd.qualifier).symm
  have extensions : c.scan.extensions = d.scan.extensions := by
    by_cases listed : ∃ t, env.extensions = some t ∧ Environment.extensionList t ≠ []
    · obtain ⟨t, set, ne⟩ := listed
      have lists := Environment.lists_iff.2 (rfl : Environment.extensionList t = _)
      rw [hc.listed t _ set lists ne, hd.listed t _ set lists ne]
    · have unlisted (t : Text) (set : env.extensions = some t) : Environment.Lists t [] := by
        rw [Environment.lists_iff]
        by_contra ne
        exact listed ⟨t, set, Ne.symm ne⟩
      rw [hc.unlisted unlisted, hd.unlisted unlisted]
  have respect : c.scan.respectIgnoreFiles = d.scan.respectIgnoreFiles := by
    by_cases ht : env.respectIgnore = some "true".toList
    · rw [hc.isTrue ht, hd.isTrue ht]
    by_cases hf : env.respectIgnore = some "false".toList
    · rw [hc.isFalse hf, hd.isFalse hf]
    rw [hc.noTruth ht hf, hd.noTruth ht hf]
  have extra : c.scan.extraIgnore = d.scan.extraIgnore := hc.extraIgnore.trans hd.extraIgnore.symm
  have size : c.scan.maxFileSize = d.scan.maxFileSize := hc.maxFileSize.trans hd.maxFileSize.symm
  have links : c.scan.followLinks = d.scan.followLinks := hc.followLinks.trans hd.followLinks.symm
  have naming : c.naming = d.naming := hc.naming.trans hd.naming.symm
  obtain ⟨⟨_⟩, ⟨_, _, _, _, _, _⟩, _⟩ := c
  obtain ⟨⟨_⟩, ⟨_, _, _, _, _, _⟩, _⟩ := d
  subst path qualifier extensions respect extra size links naming
  rfl

/-! ### Checks -/

inductive Checked where
  | qualifier
  | extensions
  | maxFileSize
  | messageSuffix
  | responseSuffix
  | schemaPath
deriving DecidableEq

namespace Checked

def inOrder : List Checked :=
  [.qualifier, .extensions, .maxFileSize, .messageSuffix, .responseSuffix, .schemaPath]

theorem mem_inOrder (k : Checked) : k ∈ inOrder := by
  cases k <;> decide

def name : Checked → Text
  | .qualifier => "scan.namespace".toList
  | .extensions => "scan.extensions".toList
  | .maxFileSize => "scan.max_file_size".toList
  | .messageSuffix => "naming.message_suffix".toList
  | .responseSuffix => "naming.response_suffix".toList
  | .schemaPath => "schema.path".toList

def demand : Checked → Text
  | .extensions => "entries must not be empty".toList
  | .maxFileSize => "must be greater than 0".toList
  | _ => "must not be empty".toList

end Checked

def Offends (c : Config) : Checked → Prop
  | .qualifier => ∃ v, c.scan.qualifier = some v ∧ Blank v
  | .extensions => ∃ e ∈ c.scan.extensions, Blank e
  | .maxFileSize => c.scan.maxFileSize = some 0
  | .messageSuffix => c.naming.messageSuffix = some []
  | .responseSuffix => c.naming.responseSuffix = some []
  | .schemaPath => ∃ v, c.schema.path = some v ∧ Blank v

theorem isVoid_iff {t : Text} : isVoid t = true ↔ Blank t := by
  rw [isVoid, List.isEmpty_iff, trim_eq_nil_iff]

theorem any_isVoid_iff {o : Option Text} : o.any isVoid = true ↔ ∃ v, o = some v ∧ Blank v := by
  cases o <;> simp [isVoid_iff]

theorem any_isVoid_list_iff {ts : List Text} : ts.any isVoid = true ↔ ∃ e ∈ ts, Blank e := by
  simp [isVoid_iff]

instance (c : Config) : (k : Checked) → Decidable (c.Offends k)
  | .qualifier => decidable_of_iff _ any_isVoid_iff
  | .extensions => decidable_of_iff _ any_isVoid_list_iff
  | .maxFileSize => inferInstanceAs (Decidable (c.scan.maxFileSize = some 0))
  | .messageSuffix => inferInstanceAs (Decidable (c.naming.messageSuffix = some []))
  | .responseSuffix => inferInstanceAs (Decidable (c.naming.responseSuffix = some []))
  | .schemaPath => decidable_of_iff _ any_isVoid_iff

/-- The field offends, and none that is checked before it does. -/
def FirstOffence (c : Config) (k : Checked) : Prop :=
  ∃ before after, Checked.inOrder = before ++ k :: after ∧ c.Offends k ∧
    ∀ j ∈ before, ¬c.Offends j

theorem map_find?_cons {α β : Type} (P : α → Prop) [DecidablePred P] (f : α → β) (a : α)
    (as : List α) :
    ((a :: as).find? fun b => decide (P b)).map f =
      if P a then some (f a) else (as.find? fun b => decide (P b)).map f := by
  by_cases h : P a <;> simp [h]

theorem firstFault?_eq (c : Config) :
    c.firstFault? =
      (Checked.inOrder.find? fun k => decide (c.Offends k)).map fun k => (k.name, k.demand) := by
  have qualifier : c.scan.qualifier.any isVoid = true ↔ c.Offends .qualifier := any_isVoid_iff
  have extensions : c.scan.extensions.any isVoid = true ↔ c.Offends .extensions :=
    any_isVoid_list_iff
  have path : c.schema.path.any isVoid = true ↔ c.Offends .schemaPath := any_isVoid_iff
  unfold Checked.inOrder firstFault?
  simp only [map_find?_cons, List.find?_nil, Option.map_none]
  apply if_congr qualifier rfl
  apply if_congr extensions rfl
  -- the three checks between them compare, as the offences do
  apply if_congr Iff.rfl rfl
  apply if_congr Iff.rfl rfl
  apply if_congr Iff.rfl rfl
  exact if_congr path rfl rfl

theorem validate_of_not_offends {c : Config} (h : ∀ k, ¬c.Offends k) : c.validate = .ok c := by
  have none : Checked.inOrder.find? (fun k => decide (c.Offends k)) = none := by
    rw [List.find?_eq_none]
    intro k _
    simpa using h k
  rw [validate, firstFault?_eq, none]
  rfl

theorem validate_of_firstOffence {c : Config} {k : Checked} (h : c.FirstOffence k) :
    c.validate = .error (.invalid k.name k.demand) := by
  obtain ⟨before, after, order, offends, sound⟩ := h
  have found : Checked.inOrder.find? (fun k => decide (c.Offends k)) = some k := by
    rw [List.find?_eq_some_iff_append]
    refine ⟨by simpa using offends, before, after, order, ?_⟩
    intro j hj
    simpa using sound j hj
  rw [validate, firstFault?_eq, found]
  rfl

theorem not_offends_or_firstOffence (c : Config) :
    (∀ k, ¬c.Offends k) ∨ ∃ k, c.FirstOffence k := by
  cases found : Checked.inOrder.find? (fun k => decide (c.Offends k)) with
  | none =>
    left
    intro k
    simpa using List.find?_eq_none.1 found k (Checked.mem_inOrder k)
  | some k =>
    right
    obtain ⟨offends, before, after, order, sound⟩ := List.find?_eq_some_iff_append.1 found
    exact ⟨k, before, after, order, by simpa using offends, by simpa using sound⟩

/-- Over the defaults a project file is itself: a list that is empty in the file is empty there. -/
theorem merge_default (c : Config) : merge {} c = c := by
  have list (ts : List Text) : listOr ts [] = ts := by
    cases ts <;> rfl
  simp only [merge, list, Option.or_none]

end Config

/-! ### Loading -/

open Config

/-- What is found at the path of a project file: the options of the file, none if there is no file,
or an error. -/
inductive FileLayer (tree : Tree) (path : Text) : Except ConfigError Config → Prop
  | absent (lacks : tree.has path = false) : FileLayer tree path (.ok {})
  | unreadable {cause : SystemError} (present : tree.has path = true)
      (read : tree.readText path = .error cause) : FileLayer tree path (.error (.unreadable path))
  | malformed {t detail : Text} (present : tree.has path = true)
      (read : tree.readText path = .ok t)
      (parsed : parse path t = .error (.malformed path detail)) :
      FileLayer tree path (.error (.malformed path detail))
  | options {t : Text} {file : Config} (present : tree.has path = true)
      (read : tree.readText path = .ok t) (parsed : parse path t = .ok file) :
      FileLayer tree path (.ok file)

theorem exists_malformed_of_parse {path t : Text} {e : ConfigError}
    (h : parse path t = .error e) : ∃ detail, e = .malformed path detail := by
  unfold parse at h
  split at h
  · contradiction
  · exact ⟨_, (Except.error.inj h).symm⟩

theorem fileLayer_ofProjectFile (tree : Tree) (root : Text) :
    FileLayer tree (Path.join root Config.projectFile)
      (ofProjectFile (Path.join root Config.projectFile) (projectFile tree root).2) := by
  by_cases present : tree.has (Path.join root Config.projectFile)
  · simp only [projectFile, if_pos present]
    cases read : tree.readText (Path.join root Config.projectFile) with
    | error cause => exact .unreadable present read
    | ok t =>
      simp only [ofProjectFile]
      cases parsed : parse (Path.join root Config.projectFile) t with
      | ok file =>
        rw [Except.map, merge_default]
        exact .options present read parsed
      | error e =>
        obtain ⟨detail, rfl⟩ := exists_malformed_of_parse parsed
        exact .malformed present read parsed
  · simp only [projectFile, if_neg present]
    exact .absent (by simpa using present)

theorem FileLayer.eq {tree : Tree} {path : Text} {below below' : Except ConfigError Config}
    (h : FileLayer tree path below) (h' : FileLayer tree path below') : below = below' := by
  cases h <;> cases h' <;> simp_all

/-- Loading says what the project file says if that is an error, and otherwise the one
configuration that the layers determine, if no field of it offends, or the error of the first field
that does.  What the environment sets is what is checked, whatever the file says of it. -/
theorem loadConfig_layers (tree : Tree) (root : Text) (env : Environment) :
    let path := Path.join root Config.projectFile
    (∃! below, FileLayer tree path below) ∧
    (∀ e, FileLayer tree path (.error e) → loadConfig tree root env = .error e) ∧
    ∀ file, FileLayer tree path (.ok file) → ∃ c, (∀ d, Layered env file d ↔ d = c) ∧
      ((∀ k, ¬c.Offends k) ∧ loadConfig tree root env = .ok c ∨
        ∃ k, c.FirstOffence k ∧ loadConfig tree root env = .error (.invalid k.name k.demand)) ∧
      (∀ v, env.qualifier = some v → (c.Offends .qualifier ↔ Blank v)) ∧
      (∀ v, env.schema = some v → (c.Offends .schemaPath ↔ Blank v)) ∧
      ∀ t es, env.extensions = some t → Environment.Lists t es → es ≠ [] →
        ¬c.Offends .extensions := by
  intro path
  have layer : FileLayer tree path (ofProjectFile path (projectFile tree root).2) :=
    fileLayer_ofProjectFile tree root
  refine ⟨⟨_, layer, fun below h => h.eq layer⟩, ?_, ?_⟩
  · intro e h
    change Config.load path (projectFile tree root).2 env = _
    rw [Config.load, layer.eq h]
    rfl
  · intro file h
    have load : loadConfig tree root env = (env.overlay file).validate := by
      change Config.load path (projectFile tree root).2 env = _
      rw [Config.load, layer.eq h]
      rfl
    have layered := layered_overlay env file
    refine ⟨env.overlay file, fun d => ⟨fun hd => hd.eq layered, ?_⟩, ?_, ?_, ?_, ?_⟩
    · rintro rfl
      exact layered
    · rw [load]
      rcases not_offends_or_firstOffence (env.overlay file) with sound | ⟨k, first⟩
      · exact .inl ⟨sound, validate_of_not_offends sound⟩
      · exact .inr ⟨k, first, validate_of_firstOffence first⟩
    · intro v set
      simp [Offends, layered.qualifier.1 v set]
    · intro v set
      simp [Offends, layered.path.1 v set]
    · intro t es set lists ne
      rintro ⟨e, he, blank⟩
      rw [layered.listed t es set lists ne] at he
      exact Environment.not_blank_of_lists lists he blank

def unnamed : Tree where
  entries := [(["lazyproto.toml".toList],
    .file (Utf8.encode "[scan]\nnamespace = \"\"\n".toList))]

theorem load_of_unnamed :
    let named : Environment := { qualifier := some "pogo".toList }
    let blank : Environment := { qualifier := some "pogo".toList, schema := some " ".toList }
    loadConfig unnamed "/".toList named = .ok { scan := { qualifier := some "pogo".toList } } ∧
    loadConfig unnamed "/".toList blank =
      .error (.invalid "schema.path".toList "must not be empty".toList) := by
  intro named blank
  let file : Config := { scan := { qualifier := some [] } }
  have layer : FileLayer unnamed "/lazyproto.toml".toList (.ok file) := by
    have read : unnamed.readText "/lazyproto.toml".toList =
      .ok "[scan]\nnamespace = \"\"\n".toList := by rfl
    exact .options (by decide +kernel) read (by decide +kernel)
  constructor
  · obtain ⟨c, layered, outcome, -⟩ := (loadConfig_layers unnamed "/".toList named).2.2 file layer
    obtain rfl := (layered _).1 (layered_overlay named file)
    have sound (k : Checked) : ¬(named.overlay file).Offends k := by
      cases k <;> decide
    rcases outcome with ⟨-, loads⟩ | ⟨k, ⟨-, -, -, offends, -⟩, -⟩
    · exact loads
    · exact absurd offends (sound k)
  · obtain ⟨c, layered, outcome, -⟩ := (loadConfig_layers unnamed "/".toList blank).2.2 file layer
    obtain rfl := (layered _).1 (layered_overlay blank file)
    have only (k : Checked) : (blank.overlay file).Offends k ↔ k = .schemaPath := by
      cases k <;> decide
    rcases outcome with ⟨sound, -⟩ | ⟨k, ⟨-, -, -, offends, -⟩, loads⟩
    · exact absurd ((only .schemaPath).2 rfl) (sound .schemaPath)
    · obtain rfl := (only k).1 offends
      exact loads

end LazyFields
