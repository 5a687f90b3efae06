import RefinementTables.Proofs.Comparison.Pivot
import RefinementTables.Proofs.Comparison.Soundness
import RefinementTables.Proofs.Layout

/-!
The texts of a compared table.

Where the rows of the schemes are the records of tables, the texts of a compared
table are fields of these tables, found by their names.

* `levelTexts` — the texts of one level: the axis of the first table, and for each
  quantity one of every table.
* `merge_tabulates` — a merge that succeeds has these texts in its rows, for all
  levels that the tables have in common.
-/

namespace RefinementTables.Comparison

open DataTable

variable {c : Comparison}

/-! ### Levels of tables -/

/-- The texts that tables have on one level, in column order. -/
def levelTexts (c : Comparison) (tables : List DataTable) (i : Nat) : List (Option String) :=
  tables.head?.bind (·.field? i c.axis) ::
    c.quantities.flatMap fun quantity => tables.map (·.field? i quantity)

/-- The number of levels that tables have in common. -/
def commonLevels (tables : List DataTable) : Nat :=
  ((tables.map fun d => d.records.length).min?).getD 0

/-- The texts that tables have on all their common levels. -/
def allTexts (c : Comparison) (tables : List DataTable) : List (List (Option String)) :=
  (List.range (commonLevels tables)).map (c.levelTexts tables)

/-- Every level has a text for the axis. -/
theorem nil_not_mem_allTexts {tables : List DataTable} : [] ∉ c.allTexts tables := by
  intro mem
  obtain ⟨i, -, empty⟩ := List.mem_map.mp mem
  exact absurd empty (List.cons_ne_nil _ _)

/-- A scheme whose rows are the records of a table that has what is compared. -/
structure Shows (c : Comparison) (scheme : Scheme) (d : DataTable) : Prop where
  rows : List.Forall₂ (Represents d.schema) (rowsOf scheme.rows) d.records
  declared : ∀ name ∈ c.axis :: c.quantities, name ∈ d.schema

/-- A row that has the texts of a table on one level. -/
def ReadsAt (c : Comparison) (i : Nat) (row : Row) (d : DataTable) : Prop :=
  ∀ name ∈ c.axis :: c.quantities, ∃ text,
    d.field? i name = some text ∧ row.get? name = some (.text text)

theorem Shows.readsAt {scheme : Scheme} {d : DataTable} {i : Nat} {row : Row}
    (shows : c.Shows scheme d) (there : (rowsOf scheme.rows)[i]? = some row) :
    c.ReadsAt i row d := by
  intro name needed
  obtain ⟨below, rfl⟩ := List.getElem?_eq_some_iff.mp there
  have below' : i < d.records.length := shows.rows.length_eq ▸ below
  have represents := shows.rows.get below below'
  obtain ⟨text, field, cell⟩ := represents.text (shows.declared name needed)
  refine ⟨text, ?_, cell⟩
  rw [DataTable.field?, List.getElem?_eq_getElem below']
  exact field

/-- The rows of a level have the texts of the tables on it. -/
theorem level_readsAt {schemes : List Scheme} {tables : List DataTable} {level : List Row} {i : Nat}
    (shown : List.Forall₂ c.Shows schemes tables)
    (at_i : schemes.map (fun s => (rowsOf s.rows)[i]?) = level.map some) :
    List.Forall₂ (c.ReadsAt i) level tables := by
  induction shown generalizing level with
  | nil =>
    cases level with
    | nil => exact .nil
    | cons row level => cases at_i
  | cons first _ ih =>
    cases level with
    | nil => cases at_i
    | cons row level =>
      obtain ⟨there, later⟩ := List.cons.inj at_i
      exact .cons (first.readsAt there) (ih later)

/-! ### The row of a level -/

section Level

variable {titles : List String} {row : Row} {level : List Row} {tables : List DataTable} {i : Nat}

/-- The cells of a quantity hold the texts of the tables. -/
theorem map_quantityCells {quantity : String} {rows : List Row}
    (sized : titles.length = rows.length) (reads : List.Forall₂ (c.ReadsAt i) rows tables)
    (chosen : quantity ∈ c.quantities) (sentinel : Sentinel) :
    (quantityCells (titles.zip rows) quantity).map (fun cell => some (cell.2.render sentinel)) =
      tables.map (·.field? i quantity) := by
  have by_row : (quantityCells (titles.zip rows) quantity).map
      (fun cell => some (cell.2.render sentinel)) =
      rows.map fun r => some (((r.get? quantity).getD .undefined).render sentinel) := by
    have rows_eq : (titles.zip rows).map Prod.snd = rows :=
      List.map_snd_zip (Nat.le_of_eq sized.symm)
    conv_rhs => rw [← rows_eq, List.map_map]
    rw [quantityCells, List.map_map]
    rfl
  rw [by_row]
  refine map_eq_map_of_forall₂ (reads.imp fun r d reads => ?_)
  obtain ⟨text, field, cell⟩ := reads quantity (List.mem_cons_of_mem _ chosen)
  rw [field, cell]
  rfl

/-- The row of a level that has the texts of tables: it is merged, its names are
the columns, and its texts are those of the tables. -/
theorem levelRow_texts (reads : List.Forall₂ (c.ReadsAt i) (row :: level) tables)
    (sized : titles.length = (row :: level).length)
    (distinct : (c.axis :: (c.pairs titles).map fun p => schemeColumn p.1 p.2).Nodup)
    (sentinel : Sentinel) :
    ∃ merged, c.levelRow titles row level = .ok merged ∧
      merged.columns = c.axis :: (c.pairs titles).map (fun p => schemeColumn p.1 p.2) ∧
      (merged.cells.map fun cell => some (cell.2.render sentinel)) = c.levelTexts tables i := by
  obtain ⟨d, rest, first, later, rfl⟩ := List.forall₂_cons_left_iff.mp reads
  obtain ⟨axis, axis_field, axis_cell⟩ := first c.axis List.mem_cons_self
  have complete : ∀ r ∈ row :: level, ∀ quantity ∈ c.quantities, (r.get? quantity).isSome := by
    intro r mem quantity chosen
    obtain ⟨d, -, reads⟩ := exists_of_mem_left reads mem
    obtain ⟨text, -, cell⟩ := reads quantity (List.mem_cons_of_mem _ chosen)
    rw [cell]
    rfl
  refine ⟨_, levelRow_ok axis_cell complete sized distinct, ?_, ?_⟩
  · rw [Row.columns, List.map_cons, map_fst_levelCells, List.map_fst_zip (Nat.le_of_eq sized)]
  · rw [List.map_cons, levelCells, List.map_flatMap, levelTexts, List.head?_cons, Option.bind_some,
      axis_field]
    refine congrArg _ ?_
    refine List.flatMap_congr ?_
    intro quantity chosen
    exact map_quantityCells sized reads chosen sentinel

end Level

/-! ### The rows of a merge -/

/-- The least number of rows is the number of levels. -/
theorem commonLevels_eq {tables : List DataTable} {streams : List (List Row)} {n : Nat}
    (lengths : tables.map (fun d => d.records.length) = streams.map List.length)
    (common : ∀ rows ∈ streams, n ≤ rows.length) (ends : ∃ rows ∈ streams, rows.length = n) :
    commonLevels tables = n := by
  have least : (streams.map List.length).min? = some n := by
    rw [List.min?_eq_some_iff, List.forall_mem_map]
    refine ⟨?_, common⟩
    obtain ⟨rows, mem, rfl⟩ := ends
    exact List.mem_map_of_mem mem
  rw [commonLevels, lengths, least, Option.getD_some]

/-- A level of schemes that show tables is merged, and its row has the texts of the
tables. -/
theorem Shows.levelRow {first : Scheme} {others : List Scheme} {tables : List DataTable}
    {columns : List String} {row : Row} {level : List Row} {i : Nat}
    (shown : List.Forall₂ c.Shows (first :: others) tables)
    (named : c.columns ((first :: others).map Scheme.title) = .ok columns)
    (at_i : LevelAt (rowsOf first.rows) (others.map fun s => rowsOf s.rows) i row level)
    (sentinel : Sentinel) :
    ∃ merged, c.levelRow ((first :: others).map Scheme.title) row level = .ok merged ∧
      merged.columns = columns ∧
      (merged.cells.map fun cell => some (cell.2.render sentinel)) = c.levelTexts tables i := by
  obtain ⟨columns_eq, distinct⟩ := columns_ok named
  have level_eq := map_level at_i
  have sized : ((first :: others).map Scheme.title).length = (row :: level).length := by
    have same := congrArg List.length level_eq
    simpa using same
  rw [columns_eq]
  exact levelRow_texts (level_readsAt shown level_eq) sized (columns_eq ▸ distinct) sentinel

/-- A merge that succeeds has a row for each common level, with the texts that the
tables have on it. -/
theorem merge_levels {schemes : List Scheme} {tables : List DataTable} {table : ComparedTable}
    (shown : List.Forall₂ c.Shows schemes tables) (merged : c.merge schemes = .ok table)
    (sentinel : Sentinel) :
    table.rows.length = commonLevels tables ∧
      ∀ i row, table.rows[i]? = some row → row.columns = table.columns ∧
        (row.cells.map fun cell => some (cell.2.render sentinel)) = c.levelTexts tables i := by
  have sound := merge_sound merged
  obtain ⟨first, others, readings, lengths, rfl, named, run, -⟩ := merge_ok merged
  have merges : ∀ i row level,
      LevelAt (rowsOf first.rows) (others.map fun s => rowsOf s.rows) i row level →
      ∃ merged, c.levelRow ((first :: others).map Scheme.title) row level = .ok merged := by
    intro i row level at_i
    obtain ⟨merged, now, -⟩ := Shows.levelRow shown named at_i sentinel
    exact ⟨merged, now⟩
  obtain ⟨levels, readings', run', -, all⟩ := lockstep_levels [] 0 merges
  -- The schemes hold rows only, so the run that gave the table is this one.
  rw [← map_start fun s hs => sound s (List.mem_cons_of_mem _ hs),
    map_ok_rowsOf (sound first List.mem_cons_self), List.nil_append, run] at run'
  cases run'
  constructor
  · refine (commonLevels_eq ?_ all.common all.ends).symm
    have same : ((first :: others).map fun s => (rowsOf s.rows).length) =
        tables.map fun d => d.records.length :=
      map_eq_map_of_forall₂ (shown.imp fun _ _ shows => shows.rows.length_eq)
    rw [← same, List.map_cons, List.map_cons, List.map_map]
    rfl
  · intro i merged there
    obtain ⟨row, level, at_i, now⟩ := all.merged i merged there
    obtain ⟨merged', now', texts⟩ := Shows.levelRow shown named at_i sentinel
    rw [now] at now'
    cases now'
    exact texts

/-- So a compared table is written with these texts. -/
theorem merge_tabulates {schemes : List Scheme} {tables : List DataTable} {table : ComparedTable}
    (shown : List.Forall₂ c.Shows schemes tables) (merged : c.merge schemes = .ok table)
    {l : Layout} (columns : l.columns = table.columns) :
    ∃ texts, l.Tabulates table.rows texts ∧ texts.map (·.map some) = c.allTexts tables := by
  obtain ⟨length, row_texts⟩ := merge_levels shown merged l.sentinel
  obtain ⟨-, -, -, -, -, named, -⟩ := merge_ok merged
  obtain ⟨-, distinct⟩ := columns_ok named
  refine ⟨table.rows.map fun row => row.cells.map fun cell => cell.2.render l.sentinel, ?_, ?_⟩
  · rw [Layout.Tabulates, List.forall₂_map_right_iff, List.forall₂_same]
    intro row mem
    obtain ⟨i, there⟩ := List.mem_iff_getElem?.mp mem
    have names := (row_texts i row there).1
    rw [columns, ← names]
    exact Layout.renders_cells (names ▸ distinct)
  · refine List.ext_getElem? ?_
    intro i
    rw [allTexts, ← length, List.map_map, List.getElem?_map, List.getElem?_map]
    cases there : table.rows[i]? with
    | none =>
      have beyond := List.getElem?_eq_none_iff.mp there
      rw [List.getElem?_eq_none (by simpa using beyond)]
      rfl
    | some row =>
      have below := (List.getElem?_eq_some_iff.mp there).1
      rw [List.getElem?_range below, Option.map_some, Option.map_some, ← (row_texts i row there).2,
        Function.comp_apply, List.map_map]
      rfl

end RefinementTables.Comparison
