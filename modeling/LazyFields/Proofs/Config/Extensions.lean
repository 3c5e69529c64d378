import LazyFields.Proofs.Config.Layers
import LazyFields.Proofs.Scan

/-!
# The endings of the names of sources

A file is a source by the ending of its name, which is a point and an extension without the dots at
its start.  The checks look at an extension with these dots: they refuse one that is blank, but not
one that is blank behind its dots, and from that the ending gets a point and nothing to be seen.
The entries of a list in the environment lose their dots before they are looked at, so what slips
through comes from a project file.
-/
namespace LazyFields
open Text

/-- The ending is a point with something to be seen behind it. -/
def VisibleEnding (ending : Text) : Prop := ∃ rest, ending = '.' :: rest ∧ ¬Blank rest

/-- The extension is dots with nothing but blanks behind them. -/
def OnlyDots (e : Text) : Prop :=
  ∃ dots tail, dots ≠ [] ∧ (∀ c ∈ dots, c = '.') ∧ Blank tail ∧ e = dots ++ tail

section Extension
variable {e : Text}

theorem head?_ne_dot_of_blank (h : Blank e) : e.head? ≠ some '.' := by
  intro first
  have dot := h '.' (List.mem_of_mem_head? first)
  exact absurd dot (by decide)

theorem OnlyDots.head? (h : OnlyDots e) : e.head? = some '.' := by
  obtain ⟨dots, tail, ne, inside, -, rfl⟩ := h
  obtain ⟨c, more, rfl⟩ := List.exists_cons_of_ne_nil ne
  rw [inside c List.mem_cons_self]
  rfl

/-- An extension is blank behind its dots when it is blank, or there is nothing but dots to be
seen. -/
theorem blank_dropWhile_dots_iff : Blank (e.dropWhile (· == '.')) ↔ Blank e ∨ OnlyDots e := by
  constructor
  · intro h
    obtain ⟨dots, inside, -, whole⟩ :=
      Environment.dropWhile_dots_eq_iff.1 (rfl : e.dropWhile (· == '.') = _)
    by_cases ne : dots = []
    · rw [ne, List.nil_append] at whole
      exact .inl (whole ▸ h)
    · exact .inr ⟨dots, _, ne, inside, h, whole⟩
  · rintro (h | ⟨dots, tail, -, inside, htail, rfl⟩)
    · exact fun c hc => h c (List.dropWhile_subset _ hc)
    · rwa [Environment.dropWhile_dots_eq_iff.2 ⟨dots, inside, head?_ne_dot_of_blank htail, rfl⟩]

theorem visibleEnding_iff :
    VisibleEnding ('.' :: e.dropWhile (· == '.')) ↔ ¬Blank e ∧ ¬OnlyDots e := by
  rw [← not_or, ← blank_dropWhile_dots_iff]
  constructor
  · rintro ⟨rest, ending, visible⟩
    rwa [(List.cons.inj ending).2]
  · exact fun visible => ⟨_, rfl, visible⟩

theorem not_onlyDots_of_lists {t : Text} {es : List Text} (h : Environment.Lists t es)
    (he : e ∈ es) : ¬OnlyDots e := by
  obtain ⟨entries, named, -, -, -, reads, rfl⟩ := h
  rw [Environment.forall₂_entered_iff] at reads
  rw [reads] at he
  obtain ⟨entry, -, read⟩ := List.mem_map.1 (List.mem_of_mem_filter he)
  obtain ⟨-, -, -, -, -, -, stop, -, -⟩ := Environment.entered_iff.2 read
  exact fun only => stop only.head?

end Extension

namespace Config
variable {c : Config}

/-- The checks accept a configuration as it is, and only one without an offence. -/
theorem validate_eq_ok_iff {d : Config} : c.validate = .ok d ↔ c = d ∧ ∀ k, ¬c.Offends k := by
  rcases not_offends_or_firstOffence c with sound | ⟨j, first⟩
  · rw [validate_of_not_offends sound, Except.ok.injEq, and_iff_left sound]
  · refine iff_of_false (fun valid => ?_) fun valid => ?_
    · rw [validate_of_firstOffence first] at valid
      contradiction
    · obtain ⟨-, -, -, offends, -⟩ := first
      exact valid.2 j offends

theorem mem_suffixes_iff {ending : Text} : ending ∈ Scan.suffixes c.scan.settings ↔
    (∃ e ∈ c.scan.extensions, '.' :: e.dropWhile (· == '.') = ending) ∨
      c.scan.extensions = [] ∧ ending = ".go".toList := by
  simp only [Scan.suffixes, ScanConfig.settings, List.mem_map]
  cases c.scan.extensions with
  | nil => simp [defaultExtensions, eq_comm]
  | cons e es => simp

end Config

open Config

/-- What is loaded has been checked, and is the project file with the environment over it. -/
theorem exists_file_of_loadConfig {tree : Tree} {root : Text} {env : Environment} {c : Config}
    (h : loadConfig tree root env = .ok c) : c.validate = .ok c ∧
      ∃ file, FileLayer tree (Path.join root Config.projectFile) (.ok file) ∧
        c = env.overlay file := by
  have layer := fileLayer_ofProjectFile tree root
  change Config.load (Path.join root Config.projectFile)
    (LazyFields.projectFile tree root).2 env = _ at h
  rw [Config.load] at h
  cases read : ofProjectFile (Path.join root Config.projectFile)
      (LazyFields.projectFile tree root).2 with
  | error e =>
    rw [read] at h
    contradiction
  | ok file =>
    rw [read] at h layer
    have checked : (env.overlay file).validate = .ok c := h
    obtain rfl := (validate_eq_ok_iff.1 checked).1
    exact ⟨checked, file, layer, rfl⟩

/-- A valid configuration gives every ending something to be seen exactly when none of its
extensions is only dots, and the point alone is an ending exactly when one of them has no other
character.  In a configuration that is loaded such an extension stands in the project file, and the
environment lists no extension. -/
theorem visibleEndings_iff {c : Config} (h : c.validate = .ok c) :
    ((∀ s ∈ Scan.suffixes c.scan.settings, VisibleEnding s) ↔
      ∀ e ∈ c.scan.extensions, ¬OnlyDots e) ∧
    (['.'] ∈ Scan.suffixes c.scan.settings ↔ ∃ e ∈ c.scan.extensions, ∀ d ∈ e, d = '.') ∧
    ∀ tree root env, loadConfig tree root env = .ok c → ∀ e ∈ c.scan.extensions, OnlyDots e →
      (∀ t, env.extensions = some t → Environment.Lists t []) ∧
      ∃ file, FileLayer tree (Path.join root Config.projectFile) (.ok file) ∧
        e ∈ file.scan.extensions := by
  have visible : ∀ e ∈ c.scan.extensions, ¬Blank e := fun e he blank =>
    (validate_eq_ok_iff.1 h).2 .extensions ⟨e, he, blank⟩
  have bare (e : Text) : '.' :: e.dropWhile (· == '.') = ['.'] ↔ ∀ d ∈ e, d = '.' := by
    simp [List.dropWhile_eq_nil_iff]
  refine ⟨⟨fun all e he => ?_, fun none ending hending => ?_⟩, ?_, ?_⟩
  · exact (visibleEnding_iff.1 (all _ (mem_suffixes_iff.2 (.inl ⟨e, he, rfl⟩)))).2
  · rcases mem_suffixes_iff.1 hending with ⟨e, he, rfl⟩ | ⟨-, rfl⟩
    · exact visibleEnding_iff.2 ⟨visible e he, none e he⟩
    · exact ⟨_, rfl, by decide⟩
  · rw [mem_suffixes_iff, or_iff_left fun default => absurd default.2 (by decide)]
    simp only [bare]
  · intro tree root env loads e he only
    obtain ⟨-, file, layer, rfl⟩ := exists_file_of_loadConfig loads
    have unlisted : ∀ t, env.extensions = some t → Environment.Lists t [] := by
      intro t set
      have lists := Environment.lists_iff.2 (rfl : Environment.extensionList t = _)
      by_cases empty : Environment.extensionList t = []
      · rwa [empty] at lists
      · rw [overlay_extensions_of_lists set lists empty] at he
        exact absurd only (not_onlyDots_of_lists lists he)
    refine ⟨unlisted, file, layer, ?_⟩
    rwa [overlay_extensions_of_unlisted unlisted] at he

/-- A tree whose project file has an extension that is only a dot. -/
def dotted : Tree where
  entries := [(["lazyproto.toml".toList],
    .file (Utf8.encode "[scan]\nextensions = [\".\"]\n".toList))]

/-- Extensions from the environment take the place of the one in the file. -/
theorem visibleEndings_of_listed :
    let env : Environment := { extensions := some ". , ..go".toList }
    let c : Config := { scan := { extensions := ["go".toList] } }
    loadConfig dotted "/".toList env = .ok c ∧ c.validate = .ok c ∧
      (∀ s ∈ Scan.suffixes c.scan.settings, VisibleEnding s) ∧
      ['.'] ∉ Scan.suffixes c.scan.settings := by
  intro env c
  have loads : loadConfig dotted "/".toList env = .ok c := by decide +kernel
  have valid : c.validate = .ok c := (exists_file_of_loadConfig loads).1
  obtain ⟨visible, bare, -⟩ := visibleEndings_iff valid
  refine ⟨loads, valid, visible.2 fun e he only => ?_, fun point => ?_⟩
  · rw [List.mem_singleton.1 he] at only
    exact absurd only.head? (by decide)
  · obtain ⟨e, he, dots⟩ := bare.1 point
    rw [List.mem_singleton.1 he] at dots
    exact absurd (dots 'g' List.mem_cons_self) (by decide)

/-- Without them the file is accepted as it is, every file whose name ends with a point is a source,
and a valid configuration has an ending with nothing to be seen. -/
theorem not_visibleEndings_of_dotted :
    let c : Config := { scan := { extensions := [".".toList] } }
    loadConfig dotted "/".toList {} = .ok c ∧ Scan.suffixes c.scan.settings = [['.']] ∧
      NamesSource c.scan.settings.extensions (Walk.bytesOf "/notes.".toList) ∧
      ¬∀ c : Config, c.validate = .ok c →
        ∀ s ∈ Scan.suffixes c.scan.settings, VisibleEnding s := by
  intro c
  have loads : loadConfig dotted "/".toList {} = .ok c := by decide +kernel
  refine ⟨loads, by decide, by decide +kernel, fun visible => ?_⟩
  obtain ⟨rest, ending, seen⟩ :=
    visible c (exists_file_of_loadConfig loads).1 ['.'] (by decide)
  rw [← (List.cons.inj ending).2] at seen
  exact seen blank_nil

end LazyFields
