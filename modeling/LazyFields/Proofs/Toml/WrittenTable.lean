import LazyFields.Proofs.Toml.WrittenStatement

/-!
# Written tables

A header and the assignments below it make a table with these entries.  A document that is written
as tables of different names, each with different keys, describes these tables.
-/
namespace LazyFields.Toml
open Text

variable {root es es' : Entries} {name : Text}

theorem ne_of_lookup_eq_none (fresh : root.lookup name = none) {e : Text × Value} (he : e ∈ root) :
    e.1 ≠ name := by
  intro h
  have differs := List.lookup_eq_none_iff.1 fresh e he
  simp [h] at differs

theorem editAt_last (fresh : root.lookup name = none) {edit : Entries → Option Entries}
    (h : edit es = some es') :
    editAt edit [name] (root ++ [(name, .table .header es)]) =
      some (root ++ [(name, .table .header es')]) := by
  have found : (root ++ [(name, Value.table .header es)]).lookup name =
      some (.table .header es) := by
    simp [List.lookup_append, fresh]
  have kept : (root.map fun e => if e.1 = name then (name, Value.table .header es') else e) =
      root := by
    rw [List.map_congr_left fun e he => if_neg (ne_of_lookup_eq_none fresh he), List.map_id']
  simp only [editAt, found, h, bind, pure, Option.bind_some]
  rw [List.map_append, kept]
  simp

/-- The assignments below a header become the entries of its table. -/
theorem foldlM_assignments (fresh : root.lookup name = none) {new : Entries}
    (distinct : ((es ++ new).map Prod.fst).Nodup) :
    (new.map assignment).foldlM Assembly.push ⟨root ++ [(name, .table .header es)], [name]⟩ =
      some ⟨root ++ [(name, .table .header (es ++ new))], [name]⟩ := by
  -- The table under the header holds the entries so far, and no key is assigned twice.
  induction new generalizing es with
  | nil => simp
  | cons e new ih =>
    have unset : es.lookup e.1 = none := by
      rw [List.lookup_eq_none_iff]
      intro d hd
      rw [List.map_append, List.nodup_append] at distinct
      have differs := distinct.2.2 d.1 (List.mem_map_of_mem hd) e.1 (by simp)
      simpa using Ne.symm differs
    have added : assign e.1 e.2 [] es = some (es ++ [e]) := by simp [assign, unset]
    have step : Assembly.push ⟨root ++ [(name, .table .header es)], [name]⟩ (assignment e) =
        some ⟨root ++ [(name, .table .header (es ++ [e]))], [name]⟩ := by
      simp only [Assembly.push, assignment]
      rw [editAt_last fresh added]
      rfl
    have still : ((es ++ [e] ++ new).map Prod.fst).Nodup := by simpa using distinct
    rw [List.map_cons, List.foldlM_cons, step]
    change (new.map assignment).foldlM Assembly.push _ = _
    rw [ih still]
    simp

def tableStatements (table : Text × Entries) : List Statement :=
  .header [] table.1 :: table.2.map assignment

def tableEntry (table : Text × Entries) : Text × Value := (table.1, .table .header table.2)

theorem foldlM_tableStatements (fresh : root.lookup name = none)
    (distinct : (es.map Prod.fst).Nodup) (current : List Text) :
    (tableStatements (name, es)).foldlM Assembly.push ⟨root, current⟩ =
      some ⟨root ++ [tableEntry (name, es)], [name]⟩ := by
  have opened : Assembly.push ⟨root, current⟩ (.header [] name) =
      some ⟨root ++ [(name, .table .header [])], [name]⟩ := by
    simp [Assembly.push, editAt, openTable, fresh]
  rw [tableStatements, List.foldlM_cons, opened]
  exact foldlM_assignments fresh distinct

theorem foldlM_tables {tables : List (Text × Entries)}
    (names : ((root ++ tables.map tableEntry).map Prod.fst).Nodup)
    (keys : ∀ t ∈ tables, (t.2.map Prod.fst).Nodup) (current : List Text) :
    ∃ last, (tables.flatMap tableStatements).foldlM Assembly.push ⟨root, current⟩ =
      some ⟨root ++ tables.map tableEntry, last⟩ := by
  induction tables generalizing root current with
  | nil => exact ⟨current, by simp⟩
  | cons t tables ih =>
    have fresh : root.lookup t.1 = none := by
      rw [List.lookup_eq_none_iff]
      intro e he
      rw [List.map_append, List.nodup_append] at names
      have differs := names.2.2 e.1 (List.mem_map_of_mem he) t.1 (by simp [tableEntry])
      simpa using Ne.symm differs
    have still : ((root ++ [tableEntry t] ++ tables.map tableEntry).map Prod.fst).Nodup := by
      simpa using names
    cases ih still (fun u hu => keys u (List.mem_cons_of_mem t hu)) [t.1] with
    | intro last later =>
      refine ⟨last, ?_⟩
      rw [List.flatMap_cons, List.foldlM_append,
        foldlM_tableStatements fresh (keys t List.mem_cons_self)]
      change (tables.flatMap tableStatements).foldlM Assembly.push _ = _
      rw [later]
      simp

/-- A document whose lines read as the statements of tables describes these tables. -/
theorem read?_of_yields {document : Text} {tables : List (Text × Entries)}
    (yields : Yields document (tables.flatMap tableStatements))
    (names : (tables.map Prod.fst).Nodup) (keys : ∀ t ∈ tables, (t.2.map Prod.fst).Nodup)
    (unmarked : document.head? ≠ some '\uFEFF') :
    read? document = some (tables.map tableEntry) := by
  have named : ((([] : Entries) ++ tables.map tableEntry).map Prod.fst).Nodup := by
    simpa [tableEntry, Function.comp_def] using names
  cases foldlM_tables named keys [] with
  | intro last built =>
    unfold read?
    split
    · exact absurd rfl unmarked
    · change (readStatements? (document.length + 1) document).bind _ = _
      rw [yields.readStatements?]
      change ((tables.flatMap tableStatements).foldlM Assembly.push ⟨[], []⟩).bind _ = _
      rw [built]
      rfl

end LazyFields.Toml
