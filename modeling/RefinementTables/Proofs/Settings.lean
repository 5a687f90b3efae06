import RefinementTables.Proofs.Comparison.Soundness
import RefinementTables.Proofs.Delimited.Field
import RefinementTables.Proofs.Source
import RefinementTables.Settings

/-!
What a file of a study holds under the settings of a run.

* `Settings.Shows` — the schema of a file, and the texts of its data records. A
  header that is in force is none of them.
* `openFor_ok` — a file that can be opened and read to its end without a fault shows
  a table with the columns that are needed, and its rows hold the records of this
  table.
* `openStudy_ok` — so a file of a study shows a table with the axis and all
  quantities, and if no name is repeated its rows are the records
  (`Represents`).
-/

namespace RefinementTables

namespace Settings

variable {s : Settings} {t : FileTree} {path : String} {schema : List String} {source : Source}

/-- The number of records of a file that are a header. -/
def headers (s : Settings) : Nat :=
  if s.hasHeaderRow then 1 else 0

/-- The table that a file holds: its data records are what is between the
delimiters, read as text and without the white space at its ends. -/
structure Shows (s : Settings) (t : FileTree) (path : String) (d : DataTable) : Prop where
  schema : s.schemaOf t path = .ok d.schema
  records : ∃ place bytes, t.find path = .ok (place, .file bytes) ∧
    ((Delimited.pieces s.delimiter bytes).drop s.headers).map
      (fun p => p.fields.map Delimited.fieldText?) = d.records.map (·.map some)

/-- A file holds one table at the most. -/
theorem Shows.unique {d d' : DataTable} (shows : s.Shows t path d) (shows' : s.Shows t path d') :
    d = d' := by
  obtain ⟨schema, place, bytes, there, records⟩ := shows
  obtain ⟨schema', place', bytes', there', records'⟩ := shows'
  rw [schema] at schema'
  rw [there] at there'
  cases there'
  have same := eq_of_map_map_some (records.symm.trans records')
  obtain ⟨schema_d, records_d⟩ := d
  obtain ⟨schema_d', records_d'⟩ := d'
  cases same
  cases schema'
  rfl

/-! ### Opening -/

theorem checkDeclared_eq_ok_iff {needed : List String} :
    checkDeclared path schema needed = .ok () ↔ ∀ name ∈ needed, name ∈ schema := by
  unfold checkDeclared
  constructor
  · intro h name mem
    split at h
    · next missing =>
      have declared := List.filter_eq_nil_iff.mp missing name mem
      simpa using declared
    · cases h
  · intro declared
    have missing : (needed.filter fun column => column ∉ schema) = [] :=
      List.filter_eq_nil_iff.mpr (by simpa using declared)
    rw [missing]

/-- A file that is opened is read from behind its header. -/
theorem openWith_ok (opened : s.openWith t path schema = .ok source) :
    ∃ records, recordsAt t path s.delimiter = .ok records ∧
      source.rows = (records.drop s.headers).map (Source.itemOf path schema) ∧
      (s.hasHeaderRow = true → ∀ record ∈ records.head?, ∃ entry, record = .ok entry) := by
  obtain ⟨start, started, h⟩ := bind_eq_ok_iff.mp opened
  obtain ⟨records, found, started⟩ := bind_eq_ok_iff.mp started
  cases started
  refine ⟨records, found, ?_⟩
  unfold headers
  cases header : s.hasHeaderRow with
  | false =>
    rw [header, if_neg (by simp)] at h
    cases h
    exact ⟨rfl, nofun⟩
  | true =>
    rw [header, if_pos rfl] at h
    cases records with
    | nil =>
      cases h
      exact ⟨rfl, by simp⟩
    | cons record rest =>
      cases record with
      | error fault => cases h
      | ok entry =>
        cases h
        exact ⟨rfl, by simp⟩

/-- A file that can be opened and read without a fault is one, and not a
directory. -/
theorem exists_entries (opened : s.openWith t path schema = .ok source)
    (sound : FaultFree source.rows) :
    ∃ place bytes, t.find path = .ok (place, .file bytes) ∧
      source.rows =
        ((Delimited.entries s.delimiter bytes).drop s.headers).map (Source.itemOf path schema) := by
  obtain ⟨records, found, rows, header_ok⟩ := openWith_ok opened
  unfold recordsAt at found
  split at found
  · cases found
  · cases found
  · -- What reading a directory gives is neither a header nor a row.
    cases found
    unfold headers at rows
    cases header : s.hasHeaderRow with
    | true =>
      obtain ⟨entry, impossible⟩ := header_ok header _ rfl
      cases impossible
    | false =>
      rw [header, if_neg (by simp)] at rows
      rw [rows] at sound
      obtain ⟨row, impossible⟩ := sound _ List.mem_cons_self
      cases impossible
  · next place bytes there =>
    cases found
    exact ⟨place, bytes, there, rows⟩

theorem columns_openWith (opened : s.openWith t path schema = .ok source) :
    source.columns = schema := by
  obtain ⟨start, started, h⟩ := bind_eq_ok_iff.mp opened
  obtain ⟨records, -, started⟩ := bind_eq_ok_iff.mp started
  cases started
  split at h
  · cases records with
    | nil =>
      cases h
      rfl
    | cons record rest =>
      cases record with
      | error fault => cases h
      | ok entry =>
        cases h
        rfl
  · cases h
    rfl

/-- Items without a fault are entries, each with its row. -/
theorem exists_rows {items : List (Except DelimitedFault Delimited.Entry)}
    (sound : FaultFree (items.map (Source.itemOf path schema))) :
    ∃ (read : List Delimited.Entry) (rows : List Row), items = read.map .ok ∧
      List.Forall₂ (fun row entry => .ok row = Source.rowOf path schema entry) rows read := by
  induction items with
  | nil => exact ⟨[], [], rfl, .nil⟩
  | cons item items ih =>
    obtain ⟨⟨row, first⟩, later⟩ := faultFree_cons.mp sound
    obtain ⟨read, rows, rfl, each⟩ := ih later
    cases item with
    | error fault => cases first
    | ok entry => exact ⟨entry :: read, row :: rows, rfl, .cons first.symm each⟩

/-- The data records of a file are the entries of its pieces behind the header. -/
theorem drop_entries (s : Settings) (bytes : Bytes) :
    (Delimited.entries s.delimiter bytes).drop s.headers =
      (((Delimited.pieces s.delimiter bytes).drop s.headers).zipIdx s.headers).map
        fun (p, index) => p.entry index := by
  unfold headers Delimited.entries
  split
  · rw [List.drop_one, List.drop_one, ← List.map_tail, List.tail_zipIdx]
  · rfl

/-- A file that is opened for some columns and read to its end without a fault shows
a table, which has these columns, and its rows hold the records. -/
theorem openFor_ok {needed : List String} (opened : s.openFor t path needed = .ok source)
    (sound : FaultFree source.rows) :
    ∃ d : DataTable, s.Shows t path d ∧ source.columns = d.schema ∧
      (∀ name ∈ needed, name ∈ d.schema) ∧
      ∃ rows, source.rows = rows.map .ok ∧
        List.Forall₂ (DataTable.Holds d.schema) rows d.records := by
  obtain ⟨schema, schema_ok, h⟩ := bind_eq_ok_iff.mp opened
  obtain ⟨⟨⟩, declared, opened⟩ := bind_eq_ok_iff.mp h
  obtain ⟨place, bytes, there, rows_eq⟩ := exists_entries opened sound
  rw [rows_eq] at sound
  obtain ⟨read, rows, entries, each⟩ := exists_rows sound
  -- The entries behind the header are counted from it on, which their texts do not see.
  have pieces : List.Forall₂ (fun p e => p.fields.map Delimited.fieldText? = e.fields.map some ∧
      e.line = p.start.line) ((Delimited.pieces s.delimiter bytes).drop s.headers) read := by
    rw [← Delimited.map_entry_eq_ok_iff, ← entries]
    exact (drop_entries s bytes).symm
  have texts : ((Delimited.pieces s.delimiter bytes).drop s.headers).map
      (fun p => p.fields.map Delimited.fieldText?) = read.map fun e => e.fields.map some :=
    map_eq_map_of_forall₂ (pieces.imp fun _ _ h => h.1)
  refine ⟨⟨schema, read.map Delimited.Entry.fields⟩, ⟨schema_ok, place, bytes, there, ?_⟩,
    columns_openWith opened, checkDeclared_eq_ok_iff.mp declared, rows, ?_, ?_⟩
  · rw [texts, List.map_map]
    rfl
  · rw [rows_eq, entries, List.map_map]
    exact (map_eq_map_of_forall₂ each).symm
  · rw [List.forall₂_map_right_iff]
    exact each.imp fun row entry h => Source.rowOf_ok h.symm

/-- A file of a study that is read to its end without a fault shows a table, which
has the axis and all quantities and fits its schema. -/
theorem openStudy_ok (opened : s.openStudy t path = .ok source) (sound : FaultFree source.rows) :
    ∃ d : DataTable, s.Shows t path d ∧
      (∀ name ∈ s.axis :: s.quantities, name ∈ d.schema) ∧
      (∀ fields ∈ d.records, fields.length = d.schema.length) ∧
      (d.schema.Nodup → ∃ rows, source.rows = rows.map .ok ∧
        List.Forall₂ (DataTable.Represents d.schema) rows d.records) := by
  obtain ⟨d, shows, -, declared, rows, rows_eq, holds⟩ := openFor_ok opened sound
  refine ⟨d, shows, declared, ?_, ?_⟩
  · intro fields mem
    obtain ⟨row, -, h⟩ := exists_of_mem_right holds mem
    exact h.fits
  · intro distinct
    exact ⟨rows, rows_eq, holds.imp fun _ _ h => h.represents distinct⟩

end Settings

end RefinementTables
