import RefinementTables.Proofs.Row
import RefinementTables.Source

/-!
Rows as they are read under a schema.

* `next_rows`, `next_exhausted` — reading one item after the other gives the items
  in order and ends at the exhausted source.
* `lastField_eq_getElem?` — where a schema repeats a name, a row keeps under it the
  field at its last position (`rowOf_ok`).
* `rowOf_eq_ok_iff` — with distinct names a row has the schema's columns, and each
  holds the field in its place (`get?_rowUnder`).
* `Represents.text` — a row that was read from a record has its texts.
-/

namespace RefinementTables

/-- The field of a record that a schema gives a name. -/
def fieldOf (columns fields : List String) (name : String) : Option String :=
  (columns.zip fields).lookup name

/-- Every name of a schema has the field that stands where it stands. -/
theorem fieldOf_of_forall₂ {R : String → String → Prop} {columns fields : List String}
    (related : List.Forall₂ R columns fields) {name : String} (mem : name ∈ columns) :
    ∃ field, fieldOf columns fields name = some field ∧ R name field := by
  unfold fieldOf
  induction related with
  | nil => cases mem
  | @cons column field columns fields first _ ih =>
    rw [List.zip_cons_cons, List.lookup_cons]
    by_cases same : name = column
    · subst same
      exact ⟨field, by rw [beq_self_eq_true], first⟩
    · rw [beq_false_of_ne same]
      exact ih ((List.mem_cons.mp mem).resolve_left same)

/-! ### Repeated names -/

/-- The field of a record that is left under a name of a schema: the one at its
last position. -/
def lastField (columns fields : List String) (name : String) : Option String :=
  (columns.zip fields).reverse.lookup name

/-- The last position of a name in a schema. -/
structure LastAt (columns : List String) (name : String) (k : Nat) : Prop where
  there : columns[k]? = some name
  last : ∀ j, k < j → columns[j]? ≠ some name

section LastField

variable {columns fields : List String} {name : String} {k : Nat}

theorem exists_lastAt (mem : name ∈ columns) : ∃ k, LastAt columns name k := by
  induction columns with
  | nil => cases mem
  | cons column columns ih =>
    by_cases later : name ∈ columns
    · obtain ⟨k, there, last⟩ := ih later
      refine ⟨k + 1, there, ?_⟩
      intro j below
      obtain ⟨j, rfl⟩ := Nat.exists_eq_add_one_of_ne_zero (Nat.ne_of_gt (Nat.zero_lt_of_lt below))
      exact last j (Nat.lt_of_succ_lt_succ below)
    · rcases List.mem_cons.mp mem with rfl | found
      · refine ⟨0, rfl, ?_⟩
        intro j below there
        obtain ⟨j, rfl⟩ := Nat.exists_eq_add_one_of_ne_zero (Nat.ne_of_gt below)
        exact later (List.mem_of_getElem? there)
      · exact absurd found later

/-- A last position is one in every record that fits. -/
theorem LastAt.lt_length (last : LastAt columns name k) (fits : fields.length = columns.length) :
    k < fields.length := by
  rw [fits]
  exact (List.getElem?_eq_some_iff.mp last.there).1

theorem lastField_cons (column field : String) :
    lastField (column :: columns) (field :: fields) name =
      (lastField columns fields name).or (if name = column then some field else none) := by
  rw [lastField, List.zip_cons_cons, List.reverse_cons, List.lookup_append, ← lastField,
    List.lookup_cons]
  by_cases same : name = column
  · simp [same]
  · simp [same, beq_false_of_ne same]

theorem lastField_eq_none (absent : name ∉ columns) : lastField columns fields name = none := by
  rw [lastField, List.lookup_eq_none_iff]
  intro pair mem
  rw [bne_iff_ne]
  rintro rfl
  exact absent (List.of_mem_zip (List.mem_reverse.mp mem)).1

/-- The field that is left under a name stands at the last position of the name. -/
theorem lastField_eq_getElem? (fits : fields.length = columns.length)
    (last : LastAt columns name k) : lastField columns fields name = fields[k]? := by
  induction columns generalizing fields k with
  | nil => exact absurd last.there (by simp)
  | cons column columns ih =>
    cases fields with
    | nil => cases fits
    | cons field fields =>
      have fits : fields.length = columns.length := Nat.succ.inj fits
      rw [lastField_cons]
      cases k with
      | zero =>
        have absent : name ∉ columns := by
          intro mem
          obtain ⟨j, there⟩ := List.mem_iff_getElem?.mp mem
          exact last.last (j + 1) (Nat.succ_pos j) there
        rw [lastField_eq_none absent, Option.none_or, if_pos (Option.some.inj last.there).symm]
        rfl
      | succ k =>
        have later : LastAt columns name k :=
          ⟨last.there, fun j below => last.last (j + 1) (Nat.succ_lt_succ below)⟩
        have below : k < fields.length := later.lt_length fits
        rw [ih fits later, List.getElem?_eq_getElem below, Option.some_or,
          List.getElem?_cons_succ, List.getElem?_eq_getElem below]

/-- Every name of a schema leaves a field. -/
theorem exists_lastField (fits : fields.length = columns.length) (mem : name ∈ columns) :
    ∃ field, lastField columns fields name = some field := by
  obtain ⟨k, last⟩ := exists_lastAt mem
  have below : k < fields.length := last.lt_length fits
  exact ⟨fields[k], by rw [lastField_eq_getElem? fits last, List.getElem?_eq_getElem below]⟩

/-- Among distinct names the last position of a name is the only one. -/
theorem lastField_of_nodup (distinct : columns.Nodup) :
    lastField columns fields name = fieldOf columns fields name := by
  induction columns generalizing fields with
  | nil => rfl
  | cons column columns ih =>
    obtain ⟨absent, rest_distinct⟩ := List.nodup_cons.mp distinct
    cases fields with
    | nil => rfl
    | cons field fields =>
      rw [lastField_cons, fieldOf, List.zip_cons_cons, List.lookup_cons]
      by_cases same : name = column
      · subst same
        simp [lastField_eq_none absent]
      · simp [same, beq_false_of_ne same, ih rest_distinct, fieldOf]

end LastField

/-- Looking up what has become of the values is doing it to what is found. -/
theorem lookup_map_snd {α β : Type} (f : α → β) (entries : List (String × α)) (name : String) :
    (entries.map (Prod.map id f)).lookup name = (entries.lookup name).map f := by
  induction entries with
  | nil => rfl
  | cons entry rest ih =>
    obtain ⟨key, value⟩ := entry
    rw [List.map_cons, Prod.map_apply, id_eq, List.lookup_cons, List.lookup_cons, ih]
    cases name == key <;> rfl

namespace Source

variable {path : String} {columns : List String} {entry : Delimited.Entry} {row : Row}

/-! ### One item after the other -/

theorem next_rows (s : Source) : s.next.1 = s.rows.head? ∧ s.next.2.rows = s.rows.tail := by
  obtain ⟨path, columns, pending, yielded⟩ := s
  cases pending <;> exact ⟨rfl, rfl⟩

theorem next_exhausted (s : Source) : s.next.2.exhausted = s.exhausted := by
  obtain ⟨path, columns, pending, yielded⟩ := s
  cases pending with
  | nil => rfl
  | cons record rest =>
    simp only [next, exhausted, rows, List.map_cons, List.countP_cons, Source.mk.injEq, true_and]
    omega

/-- A source counts the rows it gives. -/
theorem yielded_exhausted {s : Source} {rows : List Row} (rows_ok : s.rows = rows.map .ok) :
    s.exhausted.yielded = s.yielded + rows.length := by
  rw [exhausted, rows_ok, List.countP_eq_length.mpr, List.length_map]
  rw [List.forall_mem_map]
  exact fun _ _ => rfl

/-! ### Rows of records -/

/-- The row with the fields of a record in the places of a schema's names. -/
def rowUnder (path : String) (columns : List String) (entry : Delimited.Entry) : Row :=
  ⟨columns.zip (entry.fields.map Cell.text), some ⟨path, entry.line⟩⟩

/-- A record gives a row when it has as many fields as the schema has names. -/
theorem rowOf_eq_ok_iff (distinct : columns.Nodup) :
    rowOf path columns entry = .ok row ↔
      entry.fields.length = columns.length ∧ row = rowUnder path columns entry := by
  unfold rowOf
  split
  · next fits =>
    have names : (columns.zip (entry.fields.map Cell.text)).map Prod.fst = columns :=
      List.map_fst_zip (by simp [fits])
    have cells := Row.cells_ofPairs (names.symm ▸ distinct)
    simp only [fits, true_and, Except.ok.injEq, Row.located, cells, rowUnder]
    exact eq_comm
  · next differs => simp [differs]

theorem columns_rowUnder (fits : entry.fields.length = columns.length) :
    (rowUnder path columns entry).columns = columns :=
  List.map_fst_zip (by simp [fits])

/-- A column of a row that was read holds the field that the schema gives its
name. -/
@[simp] theorem get?_rowUnder (path : String) (columns : List String) (entry : Delimited.Entry)
    (name : String) :
    (rowUnder path columns entry).get? name =
      (fieldOf columns entry.fields name).map Cell.text := by
  rw [Row.get?, rowUnder, fieldOf, List.zip_map_right, lookup_map_snd]

end Source

/-! ### Tables as data -/

/-- A table as data: a schema, and the texts of records. -/
structure DataTable where
  schema : List String
  records : List (List String)
deriving DecidableEq, Repr

namespace DataTable

/-- The text that a record has under a name. -/
def field? (d : DataTable) (i : Nat) (name : String) : Option String :=
  d.records[i]?.bind fun fields => fieldOf d.schema fields name

/-- A row that was read from a record under a schema, which may repeat a name: it
holds the last field of each name. -/
structure Holds (schema : List String) (row : Row) (fields : List String) : Prop where
  fits : fields.length = schema.length
  cells : ∀ name, row.get? name = (lastField schema fields name).map Cell.text

/-- A row that has the texts of a record under the names of a schema. -/
structure Represents (schema : List String) (row : Row) (fields : List String) : Prop where
  fits : fields.length = schema.length
  cells : ∀ name, row.get? name = (fieldOf schema fields name).map Cell.text

theorem Holds.subset_columns {schema fields : List String} {row : Row}
    (holds : Holds schema row fields) : schema ⊆ row.columns := by
  intro name declared
  obtain ⟨field, left⟩ := exists_lastField holds.fits declared
  rw [← Row.isSome_get?_iff, holds.cells, left]
  rfl

theorem Holds.represents {schema fields : List String} {row : Row}
    (holds : Holds schema row fields) (distinct : schema.Nodup) :
    Represents schema row fields :=
  ⟨holds.fits, fun name => by rw [holds.cells, lastField_of_nodup distinct]⟩

/-- A row has a text under each of the names. -/
theorem Represents.text {schema fields : List String} {row : Row}
    (represents : Represents schema row fields) {name : String} (declared : name ∈ schema) :
    ∃ text, fieldOf schema fields name = some text ∧ row.get? name = some (.text text) := by
  have aligned : List.Forall₂ (fun _ _ => True) schema fields :=
    List.forall₂_iff_zip.mpr ⟨represents.fits.symm, fun _ => trivial⟩
  obtain ⟨text, there, -⟩ := fieldOf_of_forall₂ aligned declared
  exact ⟨text, there, by rw [represents.cells, there, Option.map_some]⟩

end DataTable

/-- A record that gives a row fits the schema, and the row holds it. -/
theorem Source.rowOf_ok {path : String} {columns : List String} {entry : Delimited.Entry}
    {row : Row} (read : rowOf path columns entry = .ok row) :
    DataTable.Holds columns row entry.fields := by
  unfold rowOf at read
  split at read
  · next fits =>
    cases read
    refine ⟨fits, ?_⟩
    intro name
    refine (Row.get?_foldl_insert .empty _ name).trans ?_
    rw [List.zip_map_right, ← List.map_reverse, lookup_map_snd]
    exact Option.or_none
  · cases read

end RefinementTables
