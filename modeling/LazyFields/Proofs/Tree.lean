import LazyFields.Tree.Resolve
import LazyFields.Proofs.Text.Utf8

/-!
# Writing a file of a tree

A write puts other bytes into one file and leaves everything else where it was.  Paths are followed
by the kinds of what lies on the way, so they lead where they led before, and the path that was
written is read as the text that was written.
-/
namespace LazyFields.Tree

theorem lookup_map_replace (entries : List (Location × Entry)) (l l' : Location) (e : Entry) :
    (entries.map fun p => if p.1 = l then (l, e) else p).lookup l' =
      (entries.lookup l').map fun e' => if l' = l then e else e' := by
  induction entries with
  | nil => rfl
  | cons p entries ih =>
    obtain ⟨l'', e''⟩ := p
    rw [List.map_cons, List.lookup_cons]
    by_cases hp : l'' = l
    · subst hp
      by_cases h : l' = l''
      · subst h
        simp
      · simp [h, ih, List.lookup_cons, beq_eq_false_iff_ne.2 h]
    · by_cases h : l' = l''
      · subst h
        simp [hp]
      · simp [hp, ih, List.lookup_cons, beq_eq_false_iff_ne.2 h]

theorem entry?_put (t : Tree) {l : Location} (ne : l ≠ []) (e : Entry) (l' : Location) :
    Tree.entry? (t.put l e) l' = if l' = l then some e else t.entry? l' := by
  cases l' with
  | nil => rw [if_neg ne.symm, entry?, entry?]
  | cons n ns =>
    simp only [put, entry?]
    split
    · rename_i present
      rw [lookup_map_replace]
      by_cases h : n :: ns = l
      · rw [if_pos h, h]
        obtain ⟨old, found⟩ := Option.isSome_iff_exists.1 present
        simp [found]
      · simp [h]
    · rename_i absent
      rw [List.lookup_append]
      by_cases h : n :: ns = l
      · have none : t.entries.lookup l = none := Option.not_isSome_iff_eq_none.1 absent
        simp [h, none]
      · simp [h, List.lookup_cons, beq_eq_false_iff_ne.2 h]

/-- The trees differ in the bytes of the file at a location, which are now the given ones, and in
nothing else. -/
structure Replaced (t u : Tree) (l : Location) (bytes : ByteArray) : Prop where
  before : ∃ old, t.entry? l = some (.file old)
  after : u.entry? l = some (.file bytes)
  others : ∀ l' ≠ l, u.entry? l' = t.entry? l'
  here : u.here = t.here

theorem ne_nil_of_file {t : Tree} {l : Location} {bytes : ByteArray}
    (h : t.entry? l = some (.file bytes)) : l ≠ [] := by
  rintro rfl
  simp [ entry?] at h

theorem replaced_put {t : Tree} {l : Location} {old : ByteArray}
    (h : t.entry? l = some (.file old)) (bytes : ByteArray) :
    t.Replaced (t.put l (.file bytes)) l bytes where
  before := ⟨old, h⟩
  after := by rw [entry?_put t (ne_nil_of_file h), if_pos rfl]
  others l' ne := by rw [entry?_put t (ne_nil_of_file h), if_neg ne]
  here := by
    unfold put
    split <;> rfl

variable {t u : Tree} {l : Location} {bytes : ByteArray}

/-- Names are followed alike: a file is met as a file, whatever its bytes are. -/
theorem Replaced.followNames (h : t.Replaced u l bytes) (followLast : Bool)
    (restart : Location → List Text → Except SystemError Location) (start : Location)
    (ns : List Text) :
    u.followNames followLast restart start ns = t.followNames followLast restart start ns := by
  induction ns generalizing start with
  | nil => rw [Tree.followNames, Tree.followNames]
  | cons n ns ih =>
    rw [Tree.followNames, Tree.followNames]
    by_cases there : start ++ [n] = l
    · obtain ⟨old, before⟩ := h.before
      simp only [there, before, h.after, ih]
    · simp only [h.others _ there, ih]

theorem Replaced.follow (h : t.Replaced u l bytes) (followLast : Bool) (links : Nat)
    (start : Location) (ns : List Text) :
    u.follow followLast links start ns = t.follow followLast links start ns := by
  induction links generalizing start ns with
  | zero => exact h.followNames followLast _ start ns
  | succ links ih =>
    have restart : u.follow followLast links = t.follow followLast links := by
      funext start ns
      exact ih start ns
    rw [Tree.follow, Tree.follow, restart]
    exact h.followNames followLast _ start ns

theorem Replaced.resolve (h : t.Replaced u l bytes) (path : Text) (followLast : Bool) :
    u.resolve path followLast = t.resolve path followLast := by
  simp only [Tree.resolve, h.here, h.follow]

theorem find_eq (t : Tree) (path : Text) (followLast : Bool) :
    t.find path followLast =
      match t.resolve path followLast with
      | .error cause => .error cause
      | .ok l =>
        match t.entry? l with
        | some e => .ok (l, e)
        | none => .error .notFound := by
  unfold find
  cases t.resolve path followLast with
  | error cause => rfl
  | ok l => rfl

theorem find_eq_ok_iff {path : Text} {followLast : Bool} {e : Entry} :
    t.find path followLast = .ok (l, e) ↔
      t.resolve path followLast = .ok l ∧ t.entry? l = some e := by
  rw [find_eq]
  cases t.resolve path followLast with
  | error cause => simp
  | ok l' =>
    dsimp only
    cases there : t.entry? l' with
    | none =>
      simp only [reduceCtorEq, Except.ok.injEq, false_iff]
      rintro ⟨rfl, found⟩
      rw [there] at found
      contradiction
    | some e' =>
      simp only [Except.ok.injEq, Prod.mk.injEq]
      constructor
      · rintro ⟨rfl, rfl⟩
        exact ⟨rfl, there⟩
      · rintro ⟨rfl, found⟩
        exact ⟨rfl, Option.some.inj (there.symm.trans found)⟩

theorem readText_eq (t : Tree) (path : Text) :
    t.readText path =
      match t.find path with
      | .error cause => .error cause
      | .ok (_, .file bytes) =>
        (match Text.Utf8.decode? bytes.data.toList with
        | some text => .ok text
        | none => .error .invalidUtf8)
      | .ok (_, .null) => .ok []
      | .ok _ => .error .isDirectory := by
  unfold readText readBytes
  cases t.find path with
  | error cause => rfl
  | ok p =>
    obtain ⟨l, e⟩ := p
    cases e <;> rfl

theorem readText_of_file {path text : Text} (found : t.find path = .ok (l, .file bytes))
    (decoded : Text.Utf8.decode? bytes.data.toList = some text) : t.readText path = .ok text := by
  simp only [readText_eq, found, decoded]

/-- A text that is read stands in a file, unless it is the nothing of the null device. -/
theorem exists_file_of_readText {path text : Text} (h : t.readText path = .ok text)
    (ne : text ≠ []) :
    ∃ l bytes, t.find path = .ok (l, .file bytes) ∧
      Text.Utf8.decode? bytes.data.toList = some text := by
  rw [readText_eq] at h
  split at h
  · contradiction
  · rename_i l bytes found
    split at h
    · rename_i decoded
      exact ⟨l, bytes, found, decoded.trans (congrArg some (Except.ok.inj h))⟩
    · contradiction
  · exact absurd (Except.ok.inj h).symm ne
  · contradiction

theorem write_of_file {path : Text} {old : ByteArray} (found : t.find path = .ok (l, .file old))
    (bytes : ByteArray) : t.Replaced (t.write path bytes) l bytes := by
  rw [write, found]
  exact replaced_put (find_eq_ok_iff.1 found).2 bytes

theorem Replaced.find {path : Text} (h : t.Replaced u l bytes) (leads : t.resolve path = .ok l) :
    u.find path = .ok (l, .file bytes) :=
  find_eq_ok_iff.2 ⟨(h.resolve path true).trans leads, h.after⟩

/-- A text that was written is read. -/
theorem Replaced.readText {path text : Text} (h : t.Replaced u l (Text.Utf8.encode text))
    (leads : t.resolve path = .ok l) : u.readText path = .ok text :=
  readText_of_file (h.find leads) (Text.Utf8.decode?_encode text)

end LazyFields.Tree
