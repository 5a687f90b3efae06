import RefinementTables.Layout
import RefinementTables.Proofs.Delimited.RoundTrip
import RefinementTables.Proofs.Source

/-!
What is written of a table, and that reading gives it back.

* `write_append` — rows that hold every column are written one line each. A stream that
  is written to its end holds such rows only (`exists_tabulates`).
* `read_written` — a table whose texts have no white space at their ends, and no
  byte order mark at their front, is read as it was written.
* `splits_of_separates`, `not_splits` — whatever its texts are, a table is split into
  its records and fields; with a quote or a break for a delimiter some are not.
-/

namespace RefinementTables.Layout

variable {l : Layout} {r : Row}

/-! ### Writing -/

/-- A row's cell under a name, as it stands in a table. -/
def Renders (l : Layout) (r : Row) (name text : String) : Prop :=
  ∃ cell, r.get? name = some cell ∧ cell.render l.sentinel = text

theorem texts_ok_iff {index : Nat} {columns texts : List String} :
    l.texts index r columns = .ok texts ↔ List.Forall₂ (l.Renders r) columns texts := by
  induction columns generalizing texts with
  | nil => simp [Layout.texts, eq_comm]
  | cons column columns ih =>
    unfold Layout.texts
    rw [List.forall₂_cons_left_iff]
    cases found : r.get? column with
    | none =>
      constructor
      · intro h
        cases h
      · rintro ⟨text, later, ⟨cell, there, -⟩, -⟩
        rw [found] at there
        cases there
    | some cell =>
      constructor
      · intro h
        cases rest : l.texts index r columns with
        | error fault =>
          rw [rest] at h
          cases h
        | ok later =>
          rw [rest] at h
          cases h
          exact ⟨_, later, ⟨cell, found, rfl⟩, ih.mp rest, rfl⟩
      · rintro ⟨text, later, ⟨_, there, rfl⟩, rest, rfl⟩
        cases found.symm.trans there
        simp [ih.mpr rest, Except.map]

/-- A row that holds every column can be written. -/
theorem exists_renders (there : l.columns ⊆ r.columns) :
    ∃ texts, List.Forall₂ (l.Renders r) l.columns texts := by
  refine exists_forall₂ ?_
  intro name asked
  obtain ⟨cell, found⟩ := Option.isSome_iff_exists.mp (Row.isSome_get?_iff.mpr (there asked))
  exact ⟨_, cell, found, rfl⟩

/-- A row with distinct columns renders its own cells. -/
theorem renders_cells (distinct : r.columns.Nodup) :
    List.Forall₂ (l.Renders r) r.columns (r.cells.map fun cell => cell.2.render l.sentinel) := by
  rw [Row.columns, List.forall₂_map_left_iff, List.forall₂_map_right_iff, List.forall₂_same]
  intro cell mem
  exact ⟨cell.2, Row.lookup_of_mem distinct mem, rfl⟩

/-- The texts of rows that hold every column, row by row in column order. -/
def Tabulates (l : Layout) (records : List Row) (table : List (List String)) : Prop :=
  List.Forall₂ (fun r texts => List.Forall₂ (l.Renders r) l.columns texts) records table

theorem exists_tabulates_of_subset {records : List Row}
    (there : ∀ r ∈ records, l.columns ⊆ r.columns) : ∃ table, l.Tabulates records table :=
  exists_forall₂ fun r mem => exists_renders (there r mem)

/-- Every row has one text for each column. -/
theorem Tabulates.widths {records : List Row} {table : List (List String)}
    (tabulates : l.Tabulates records table) :
    ∀ texts ∈ table, texts.length = l.columns.length := by
  intro texts mem
  obtain ⟨r, -, rendered⟩ := exists_of_mem_right tabulates mem
  exact rendered.length_eq.symm

/-- Rows that hold every column are written one line each, before what follows them. -/
theorem lines_append {records : List Row} {table : List (List String)}
    (rendered : l.Tabulates records table) (before : Nat) (rest : RowStream) :
    l.lines (before + 1) (records.map .ok ++ rest) =
      let later := l.lines (before + records.length + 1) rest
      { later with bytes := table.flatMap l.line ++ later.bytes } := by
  induction rendered generalizing before with
  | nil => rfl
  | @cons r texts records table first _ ih =>
    have shifted : before + 1 + records.length + 1 = before + (records.length + 1) + 1 := by omega
    rw [List.map_cons, List.cons_append, lines, texts_ok_iff.mpr first]
    simp only [ih (before + 1), shifted, List.flatMap_cons, List.length_cons, List.append_assoc]

/-- The header, and then one line for each of these rows. -/
theorem write_append {records : List Row} {table : List (List String)}
    (rendered : l.Tabulates records table) (rest : RowStream) :
    l.write (records.map .ok ++ rest) =
      let later := l.lines (records.length + 1) rest
      { later with bytes := (l.columns :: table).flatMap l.line ++ later.bytes } := by
  have body := lines_append rendered 0 rest
  rw [Nat.zero_add, Nat.zero_add] at body
  simp only [write, body, header, List.flatMap_cons, List.append_assoc]

/-- Without anything behind them, that is all. -/
theorem write_ok {records : List Row} {table : List (List String)}
    (rendered : l.Tabulates records table) :
    l.write (records.map .ok) =
      ⟨(l.columns :: table).flatMap l.line, records.length, none⟩ := by
  have whole := write_append rendered []
  rw [List.append_nil] at whole
  simp only [whole, lines, List.append_nil, Nat.add_sub_cancel]

/-- A stream that is written to its end holds rows only, and these hold every
column. -/
theorem exists_tabulates {index : Nat} {stream : RowStream}
    (whole : (l.lines index stream).fault = none) :
    ∃ records table, stream = records.map .ok ∧ l.Tabulates records table := by
  induction stream generalizing index with
  | nil => exact ⟨[], [], rfl, .nil⟩
  | cons item rest ih =>
    cases item with
    | error fault => cases whole
    | ok r =>
      unfold lines at whole
      split at whole
      · cases whole
      · next texts rendered =>
        obtain ⟨records, table, rfl, tabulates⟩ := ih whole
        exact ⟨r :: records, texts :: table, rfl, .cons (texts_ok_iff.mp rendered) tabulates⟩

/-- A table that is written without a fault is its header, and then one line for
each row. -/
theorem write_eq_ok {stream : RowStream} {count : Nat}
    (written : (l.write stream).result = .ok count) :
    ∃ records table, stream = records.map .ok ∧ l.Tabulates records table ∧
      (l.write stream).bytes = (l.columns :: table).flatMap l.line := by
  have whole : (l.lines 1 stream).fault = none := by
    unfold Written.result at written
    split at written
    · next none_left => exact none_left
    · cases written
  obtain ⟨records, table, rfl, tabulates⟩ := exists_tabulates whole
  exact ⟨records, table, rfl, tabulates, by rw [write_ok tabulates]⟩

/-! ### Reading back -/

/-- A header that reading gives back, and a delimiter that can be told from it. -/
structure Faithful (l : Layout) : Prop where
  nonempty : l.columns ≠ []
  distinct : l.columns.Nodup
  trimmed : ∀ name ∈ l.columns, Text.Trimmed name
  unmarked : ∀ name ∈ l.columns.head?, name.toList.head? ≠ some '\uFEFF'
  ascii : l.delimiter < 128
  separates : Delimited.Separates l.delimiter

/-- A row that holds every column, without white space at the ends of its texts. -/
def Admits (l : Layout) (r : Row) : Prop :=
  ∀ name ∈ l.columns, ∃ text, Text.Trimmed text ∧ l.Renders r name text

instance (l : Layout) (r : Row) : Decidable (l.Admits r) :=
  decidable_of_iff (∀ name ∈ l.columns,
      (r.get? name).any fun cell => decide (Text.Trimmed (cell.render l.sentinel)))
    (by simp [Admits, Renders, Option.any_eq_true, and_comm])

theorem map_trim_eq_self {texts : List String} (trimmed : ∀ text ∈ texts, Text.Trimmed text) :
    texts.map Text.trim = texts := by
  have same : texts.map Text.trim = texts.map id :=
    List.map_congr_left fun text mem => Text.trim_eq_self (trimmed text mem)
  rw [same, List.map_id]

/-- The texts of admitted rows, none with white space at its ends. -/
theorem exists_table {records : List Row} (admitted : ∀ r ∈ records, l.Admits r) :
    ∃ table, l.Tabulates records table ∧
      ∀ texts ∈ table, texts.length = l.columns.length ∧ ∀ text ∈ texts, Text.Trimmed text := by
  have partner : ∀ r ∈ records, ∃ texts,
      List.Forall₂ (fun name text => Text.Trimmed text ∧ l.Renders r name text) l.columns texts :=
    fun r mem => exists_forall₂ (admitted r mem)
  obtain ⟨table, both⟩ := exists_forall₂ partner
  refine ⟨table, both.imp fun _ _ texts => texts.imp fun _ _ h => h.2, ?_⟩
  intro texts mem
  obtain ⟨r, -, texts_both⟩ := exists_of_mem_right both mem
  refine ⟨texts_both.length_eq.symm, ?_⟩
  intro text there
  obtain ⟨name, -, trimmed, -⟩ := exists_of_mem_right texts_both there
  exact trimmed

/-- A written table is read as entries with the same texts, without the white space
at their ends. -/
theorem readsAs_written (ascii : l.delimiter < 128) (separates : Delimited.Separates l.delimiter)
    (nonempty : l.columns ≠ [])
    (unmarked : ∀ name ∈ l.columns.head?, name.toList.head? ≠ some '\uFEFF')
    {table : List (List String)} (widths : ∀ texts ∈ table, texts.length = l.columns.length) :
    Delimited.ReadsAs l.delimiter ((l.columns :: table).flatMap l.line) (l.columns :: table) := by
  obtain ⟨name, names, columns⟩ := List.exists_cons_of_ne_nil nonempty
  have first := unmarked name (by rw [columns, List.head?_cons]; rfl)
  have filled : ∀ texts ∈ table, texts ≠ [] := by
    intro texts mem empty
    have width := widths texts mem
    rw [empty, columns] at width
    cases width
  rw [columns]
  exact Delimited.readsAs_encoded ascii separates first filled

/-- Texts without white space at their ends are read as they were written. -/
theorem entries_table (faithful : l.Faithful) {table : List (List String)}
    (texts_ok : ∀ texts ∈ table, texts.length = l.columns.length ∧
      ∀ text ∈ texts, Text.Trimmed text) :
    ∃ (head : Delimited.Entry) (read : List Delimited.Entry),
      Delimited.entries l.delimiter ((l.columns :: table).flatMap l.line) =
        .ok head :: read.map .ok ∧
      head.fields = l.columns ∧ read.map Delimited.Entry.fields = table := by
  obtain ⟨read, entries, fields⟩ := readsAs_written faithful.ascii faithful.separates
    faithful.nonempty faithful.unmarked fun texts mem => (texts_ok texts mem).1
  have kept : (l.columns :: table).map (·.map Text.trim) = (l.columns :: table).map id := by
    refine List.map_congr_left fun texts mem => map_trim_eq_self ?_
    rcases List.mem_cons.mp mem with rfl | later
    · exact faithful.trimmed
    · exact (texts_ok texts later).2
  rw [kept, List.map_id] at fields
  cases read with
  | nil => cases fields
  | cons head read =>
    obtain ⟨first, later⟩ := List.cons.inj fields
    exact ⟨head, read, entries, first, later⟩

/-- What was written is read as it was written: the header gives the columns, and
each record the rendered cells under them. -/
theorem read_written (faithful : l.Faithful) {records : List Row}
    (admitted : ∀ r ∈ records, l.Admits r) {t : FileTree} {path : String} {place : Place}
    (there : t.find path = .ok (place, .file (l.write (records.map .ok)).bytes)) :
    (l.write (records.map .ok)).result = .ok records.length ∧
    namesInHeader t path l.delimiter = .ok l.columns ∧
    ∃ source data rows,
      Source.ofTree t path l.delimiter l.columns = .ok source ∧
      source.passHeader = (.ok (), data) ∧
      data.rows = rows.map .ok ∧
      data.exhausted.yielded = records.length ∧
      List.Forall₂ (fun r row => row.columns = l.columns ∧
        ∀ name ∈ l.columns, ∃ text, l.Renders r name text ∧ row.get? name = some (.text text))
        records rows := by
  obtain ⟨table, rendered, texts_ok⟩ := exists_table admitted
  obtain ⟨head, read, entries, names, fields⟩ := entries_table faithful texts_ok
  rw [write_ok rendered] at there ⊢
  have found : recordsAt t path l.delimiter = .ok (.ok head :: read.map .ok) := by
    rw [recordsAt, there]
    exact congrArg Except.ok entries
  have rendered_read : List.Forall₂
      (fun r entry => List.Forall₂ (l.Renders r) l.columns entry.fields) records read := by
    rw [← List.forall₂_map_right_iff, fields]
    exact rendered
  let data : Source := ⟨path, l.columns, read.map .ok, 0⟩
  have rows : data.rows = (read.map (Source.rowUnder path l.columns)).map .ok := by
    rw [Source.rows, List.map_map, List.map_map]
    refine List.map_congr_left fun entry mem => ?_
    obtain ⟨r, -, texts⟩ := exists_of_mem_right rendered_read mem
    exact (Source.rowOf_eq_ok_iff faithful.distinct).mpr ⟨texts.length_eq.symm, rfl⟩
  refine ⟨rfl, ?_, { data with pending := .ok head :: data.pending }, data,
    read.map (Source.rowUnder path l.columns), ?_, rfl, rows, ?_, ?_⟩
  · rw [namesInHeader, found]
    exact congrArg Except.ok names
  · rw [Source.ofTree, found]
    rfl
  · rw [Source.yielded_exhausted rows, List.length_map, ← rendered_read.length_eq, Nat.zero_add]
  · rw [List.forall₂_map_right_iff]
    refine rendered_read.imp fun r entry texts => ⟨?_, ?_⟩
    · exact Source.columns_rowUnder texts.length_eq.symm
    · intro name mem
      obtain ⟨text, field, renders⟩ := fieldOf_of_forall₂ texts mem
      exact ⟨text, renders, by rw [Source.get?_rowUnder, field, Option.map_some]⟩

/-! ### Records and fields -/

/-- What is written of some rows is split, by a reader with the same delimiter, into
a record for the header and one for each row, each with a field for each column. -/
def Splits (l : Layout) (records : List Row) : Prop :=
  (l.write (records.map .ok)).result = .ok records.length ∧
  ∀ t path place, t.find path = .ok (place, .file (l.write (records.map .ok)).bytes) →
    ∃ read : List Delimited.Entry, recordsAt t path l.delimiter = .ok (read.map .ok) ∧
      read.length = records.length + 1 ∧ ∀ e ∈ read, e.fields.length = l.columns.length

/-- With a delimiter that is neither a quote nor a break, every table is split into
its records and fields. -/
theorem splits_of_separates (ascii : l.delimiter < 128)
    (separates : Delimited.Separates l.delimiter) (nonempty : l.columns ≠ [])
    (unmarked : ∀ name ∈ l.columns.head?, name.toList.head? ≠ some '\uFEFF') {records : List Row}
    (there : ∀ r ∈ records, l.columns ⊆ r.columns) : l.Splits records := by
  obtain ⟨table, tabulates⟩ := exists_tabulates_of_subset there
  obtain ⟨read, entries, fields⟩ :=
    readsAs_written ascii separates nonempty unmarked tabulates.widths
  have written := write_ok (l := l) tabulates
  have lengths : read.map (·.fields.length) = (l.columns :: table).map List.length := by
    have counted := congrArg (List.map List.length) fields
    simpa [Function.comp_def] using counted
  refine ⟨by rw [written]; rfl, ?_⟩
  intro t path place found
  rw [written] at found
  refine ⟨read, ?_, ?_, ?_⟩
  · rw [recordsAt, found]
    exact congrArg Except.ok entries
  · have counted := congrArg List.length lengths
    rw [List.length_map, List.length_map, List.length_cons, ← tabulates.length_eq] at counted
    exact counted
  · intro e mem
    have width : e.fields.length ∈ (l.columns :: table).map List.length := by
      rw [← lengths]
      exact List.mem_map_of_mem mem
    obtain ⟨texts, of_table, same⟩ := List.mem_map.mp width
    rw [← same]
    rcases List.mem_cons.mp of_table with rfl | later
    · rfl
    · exact tabulates.widths texts later

/-- A directory with one file. -/
def oneFile (bytes : Bytes) : FileTree where
  here := []
  nodes := [(.named [], .directory), (.named ["t"], .file bytes)]
  unused := 0

theorem Splits.widths {records : List Row} (splits : l.Splits records) :
    (Delimited.entries l.delimiter (l.write (records.map .ok)).bytes).map
        (fun entry => entry.toOption.map fun e => e.fields.length) =
      List.replicate (records.length + 1) (some l.columns.length) := by
  obtain ⟨read, found, count, widths⟩ := splits.2 (oneFile _) "t" ["t"] rfl
  have entries : Delimited.entries l.delimiter (l.write (records.map .ok)).bytes = read.map .ok :=
    Except.ok.inj found
  rw [entries, List.map_map, List.eq_replicate_iff]
  refine ⟨by rw [List.length_map, count], ?_⟩
  refine List.forall_mem_map.mpr fun e mem => ?_
  exact congrArg some (widths e mem)

/-- A row whose first text is empty. -/
def hollowRow : Row := .ofPairs [("a", .text ""), ("b", .text "2")]

theorem columns_hollowRow : hollowRow.columns = ["a", "b"] := by decide +kernel

theorem ascii_columns_hollowRow :
    ∀ name ∈ ["a", "b"], name ≠ "" ∧ ∀ c ∈ name.toList, c.toNat < 128 := by
  have first : "a".toList = ['a'] := by decide +kernel
  have second : "b".toList = ['b'] := by decide +kernel
  simp [first, second]

/-- A quote or a break between fields is taken for what else it stands for, so that
a table of two columns and one row is not split into two records of two fields. -/
theorem not_splits {d : UInt8} (awkward : ¬ Delimited.Separates d) (sentinel : Sentinel) :
    ¬ Splits ⟨["a", "b"], d, sentinel⟩ [hollowRow] := by
  intro splits
  have widths := splits.widths
  rw [Delimited.separates_iff, not_and_or, not_and_or, not_not, not_not, not_not] at awkward
  -- What is left are six tables, each read as it was written.
  rcases awkward with rfl | rfl | rfl <;> cases sentinel <;>
    exact absurd widths (by decide +kernel)

/-! ### A table full of marks -/

/-- Two columns, one of them named with the delimiter and quotes. -/
def markedLayout : Layout := ⟨["h", "e;\"2\""], 59, .notANumber⟩

/-- Rows whose texts hold a delimiter, quotes and breaks, or nothing. -/
def markedRecords : List Row :=
  [.ofPairs [("e;\"2\"", .undefined), ("h", .text "a;\"b\"\r\nc"), ("beside", .undefined)],
   .ofPairs [("h", .text ""), ("e;\"2\"", .number (.ofDecimal false ⟨5, -1⟩))]]

def markedTree : FileTree where
  here := []
  nodes := [
    (.named [], .directory),
    (.named ["t.csv"], .file (markedLayout.write (markedRecords.map .ok)).bytes)]
  unused := 0

theorem read_markedTree :
    markedLayout.Faithful ∧ (∀ r ∈ markedRecords, markedLayout.Admits r) ∧
    (markedLayout.write (markedRecords.map .ok)).result = .ok 2 ∧
    namesInHeader markedTree "t.csv" 59 = .ok ["h", "e;\"2\""] ∧
    ∃ source data rows,
      Source.ofTree markedTree "t.csv" 59 ["h", "e;\"2\""] = .ok source ∧
      source.passHeader = (.ok (), data) ∧
      data.rows = rows.map .ok ∧
      data.exhausted.yielded = 2 ∧
      List.Forall₂ (fun r row => row.columns = ["h", "e;\"2\""] ∧
        ∀ name ∈ ["h", "e;\"2\""], ∃ text, markedLayout.Renders r name text ∧
          row.get? name = some (.text text))
        markedRecords rows := by
  have faithful : markedLayout.Faithful :=
    ⟨by decide, by decide, by decide +kernel, by decide, by decide, by decide, by decide⟩
  have admitted : ∀ r ∈ markedRecords, markedLayout.Admits r := by decide +kernel
  have there : markedTree.find "t.csv" =
      .ok (["t.csv"], .file (markedLayout.write (markedRecords.map .ok)).bytes) := by rfl
  exact ⟨faithful, admitted, read_written faithful admitted there⟩

end RefinementTables.Layout
