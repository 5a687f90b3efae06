import RefinementTables.Proofs.Convergence.Columns
import RefinementTables.Proofs.Run.Tables
import RefinementTables.Proofs.Scaling
import RefinementTables.Proofs.Settings

/-!
What becomes of the fields of a table that gets its rates or is scaled.

Such a command writes the columns of its source in their places, and others behind
them. On the way a row holds one cell for each name: where a schema repeats a name,
the last field under it is written at all of its positions.

* `Rework` — what a command reads and writes, and which columns are not the
  source's own.
* `KeepsLast`, `PassesThrough`, `Consistent` — what is left of the fields of a
  record; all pass through exactly if those under one name are equal.
* `fields_pass_through` — so it is for every command line that ends well.
-/

namespace RefinementTables

open FileTree

variable {t : FileTree}

/-! ### Records -/

section Records

variable {schema replaced fields texts : List String}

/-- A written record has at each position of a source column, but for those that
are replaced, the field at the last position of the name. -/
def KeepsLast (schema replaced fields texts : List String) : Prop :=
  ∀ (j k : Nat) (name : String), schema[j]? = some name → name ∉ replaced →
    LastAt schema name k → texts[j]? = fields[k]?

/-- A written record has at each position of a source column, but for those that
are replaced, the field that was read there. -/
def PassesThrough (schema replaced fields texts : List String) : Prop :=
  ∀ (j : Nat) (name : String), schema[j]? = some name → name ∉ replaced → texts[j]? = fields[j]?

/-- A record whose fields under one name are equal, but for the names that are
replaced. -/
def Consistent (schema replaced fields : List String) : Prop :=
  ∀ (j k : Nat) (name : String), schema[j]? = some name → schema[k]? = some name →
    name ∉ replaced → fields[j]? = fields[k]?

/-- Where no name is repeated, every record is of this kind. -/
theorem consistent_of_nodup (distinct : schema.Nodup) : Consistent schema replaced fields := by
  intro j k name at_j at_k _
  have below := (List.getElem?_eq_some_iff.mp at_j).1
  rw [(List.getElem?_inj below distinct).mp (at_j.trans at_k.symm)]

/-- The fields of a record pass through exactly if those under one name are
equal. -/
theorem KeepsLast.passesThrough_iff (keeps : KeepsLast schema replaced fields texts) :
    PassesThrough schema replaced fields texts ↔ Consistent schema replaced fields := by
  constructor
  · intro passes j k name at_j at_k kept
    obtain ⟨last, is_last⟩ := exists_lastAt (List.mem_of_getElem? at_j)
    calc fields[j]? = texts[j]? := (passes j name at_j kept).symm
      _ = fields[last]? := keeps j last name at_j kept is_last
      _ = texts[k]? := (keeps k last name at_k kept is_last).symm
      _ = fields[k]? := passes k name at_k kept
  · intro consistent j name at_j kept
    obtain ⟨last, is_last⟩ := exists_lastAt (List.mem_of_getElem? at_j)
    calc texts[j]? = fields[last]? := keeps j last name at_j kept is_last
      _ = fields[j]? := consistent last j name is_last.there at_j kept

/-- A row that holds the last field of each name, but for those that are replaced,
is written with them. -/
theorem keepsLast_of_renders {l : Layout} {out : Row} {added : List String}
    (fits : fields.length = schema.length)
    (held : ∀ name ∈ schema, name ∉ replaced →
      out.get? name = (lastField schema fields name).map Cell.text)
    (rendered : List.Forall₂ (l.Renders out) (schema ++ added) texts) :
    KeepsLast schema replaced fields texts := by
  intro j k name at_j kept last
  have place : (schema ++ added)[j]? = some name := by
    rw [List.getElem?_append_left (List.getElem?_eq_some_iff.mp at_j).1, at_j]
  obtain ⟨text, there, cell, found, rfl⟩ := exists_getElem?_right rendered place
  rw [held name (List.mem_of_getElem? at_j) kept, lastField_eq_getElem? fits last] at found
  obtain ⟨field, at_k, rfl⟩ := Option.map_eq_some_iff.mp found
  rw [there, at_k]
  rfl

end Records

/-! ### Commands -/

/-- What a command makes of one table: the input and the output, the options, the
columns whose cells it computes in their places, and the columns that it adds. -/
structure Rework where
  input : String
  output : String
  overrides : Overrides
  replaced : List String
  added : Settings → List String

/-- What a command makes of its table, if it has one table only. -/
def Command.rework? : Command → Option Rework
  | .merge .. => none
  | .eoc input output overrides =>
    some ⟨input, output, overrides, [], fun s => s.quantities.map rateName⟩
  | .scale input output column _ overrides =>
    some ⟨input, output, overrides, [column], fun _ => []⟩

namespace Run

variable {s : Settings} {w : Rework}

/-- A command with one table that ends well has delivered what it writes. -/
theorem rework_delivers {i : Invocation} (reworks : i.command.rework? = some w)
    (ended : (i.run t).result = .ok ()) :
    ∃ s l stream warnings report,
      Run.settings t i.configuration w.overrides .eoc = .ok s ∧ Writes s t i.command l stream ∧
      i.run t = deliver t [] [⟨w.output, filling (l.write stream) warnings⟩] report := by
  obtain ⟨configuration, verbosity, quiet, command⟩ := i
  cases command with
  | merge => cases reworks
  | eoc input output overrides =>
    cases reworks
    obtain ⟨s, settled, done, run_eq⟩ := withSettings_ok ended
    obtain ⟨l, stream, warnings, report, writes, delivers⟩ := eoc_delivers done
    exact ⟨s, l, stream, warnings, report, settled, writes, run_eq.trans delivers⟩
  | scale input output column factor overrides =>
    cases reworks
    obtain ⟨s, settled, done, run_eq⟩ := withSettings_ok ended
    obtain ⟨l, stream, warnings, report, writes, delivers⟩ := scale_delivers done
    exact ⟨s, l, stream, warnings, report, settled, writes, run_eq.trans delivers⟩

/-- What comes out of a source that was read without a fault holds the last field
of each name, but for some names. -/
theorem kept_of_sameBut {path : String} {needed names : List String} {source : Source}
    {rows out : List Row} (opened : s.openFor t path needed = .ok source)
    (rows_eq : source.rows = rows.map .ok) (same : List.Forall₂ (Row.SameBut names) rows out) :
    ∃ d : DataTable, s.Shows t path d ∧ source.columns = d.schema ∧
      List.Forall₂ (fun fields r => fields.length = d.schema.length ∧
        ∀ name ∉ names, r.get? name = (lastField d.schema fields name).map Cell.text)
        d.records out := by
  have sound : FaultFree source.rows := by
    rw [rows_eq]
    exact List.forall_mem_map.mpr fun row _ => ⟨row, rfl⟩
  obtain ⟨d, shows, columns, -, rows', rows_eq', holds⟩ := Settings.openFor_ok opened sound
  rw [rows_eq] at rows_eq'
  cases (List.map_injective_iff.mpr fun _ _ => Except.ok.inj) rows_eq'
  refine ⟨d, shows, columns, (forall₂_join holds same).imp ?_⟩
  rintro fields r ⟨row, held, kept⟩
  refine ⟨held.fits, ?_⟩
  intro name other
  rw [kept name other, held.cells]

/-- The rows that such a command writes have the columns of the source in front, and
hold the last field of each name there, but for those that are replaced. -/
theorem Writes.reworked {command : Command} {l : Layout} {out : List Row}
    (writes : Writes s t command l (out.map .ok)) (reworks : command.rework? = some w) :
    ∃ d : DataTable, s.Shows t w.input d ∧ l = s.layout (d.schema ++ w.added s) ∧
      List.Forall₂ (fun fields r => fields.length = d.schema.length ∧
        ∀ name ∈ d.schema, name ∉ w.replaced →
          r.get? name = (lastField d.schema fields name).map Cell.text) d.records out := by
  -- Each command has a stream of its own form, of which these rows are the items.
  generalize stream_eq : out.map Except.ok = stream at writes
  cases writes with
  | merge => cases reworks
  | eoc opened named =>
    cases reworks
    obtain ⟨rows, rows_eq, same⟩ := Study.augment_sameBut stream_eq.symm
    obtain ⟨d, shows, columns, kept⟩ := kept_of_sameBut opened rows_eq same
    obtain ⟨rfl, new⟩ := Study.augmentedColumns_ok named
    rw [columns] at new ⊢
    refine ⟨d, shows, rfl, kept.imp fun fields r h => ⟨h.1, ?_⟩⟩
    -- A rate column is none of the source's, so every name of the schema is kept.
    intro name declared _
    exact h.2 name fun rate => new name rate declared
  | scale opened =>
    cases reworks
    obtain ⟨rows, rows_eq, same⟩ := RowStream.scale_sameBut stream_eq.symm
    obtain ⟨d, shows, columns, kept⟩ := kept_of_sameBut opened rows_eq same
    rw [columns]
    refine ⟨d, shows, by rw [List.append_nil], kept.imp fun fields r h => ⟨h.1, ?_⟩⟩
    intro name _ other
    exact h.2 name other

end Run

/-! ### Command lines -/

/-- A command line that adds rates or scales a column, and ends well, leaves the
header of its table with the added columns, and one record for each that was read.
At each position of a source column, but for the scaled one, a record has the field
at the last position of the name; so all fields pass through exactly if those under
one name are equal in every record. -/
theorem fields_pass_through (tree : t.IsTree) {arguments : List String} {i : Invocation}
    {w : Rework} (parsed : CommandLine.parse arguments = .ok i)
    (reworks : i.command.rework? = some w) (ended : (runCommandLine arguments t).exitCode = 0) :
    ∃ s d table place, Run.settings t i.configuration w.overrides .eoc = .ok s ∧
      s.Shows t w.input d ∧
      ((runCommandLine arguments t).tree t).find w.output = .ok (place,
        .file (((d.schema ++ w.added s) :: table).flatMap (Delimited.encodeTexts s.delimiter))) ∧
      (∀ texts ∈ table, texts.length = (d.schema ++ w.added s).length) ∧
      List.Forall₂ (KeepsLast d.schema w.replaced) d.records table ∧
      (List.Forall₂ (PassesThrough d.schema w.replaced) d.records table ↔
        ∀ fields ∈ d.records, Consistent d.schema w.replaced fields) := by
  obtain ⟨done, tree_eq⟩ := Run.runs_of_exitCode parsed ended
  obtain ⟨s, l, stream, warnings, report, settled, writes, delivers⟩ :=
    Run.rework_delivers reworks done
  rw [delivers] at done
  obtain ⟨place, found⟩ :=
    Run.deliver_find tree [] (List.pairwise_singleton _ _) report done _ List.mem_cons_self
  obtain ⟨count, written⟩ := Run.deliver_filled done _ List.mem_cons_self
  obtain ⟨out, table, rfl, tabulates, bytes⟩ := Layout.write_eq_ok written
  obtain ⟨d, shows, rfl, kept⟩ := writes.reworked reworks
  -- The rows that came out stand between the records and the written texts.
  have keeps : List.Forall₂ (KeepsLast d.schema w.replaced) d.records table := by
    refine (forall₂_join kept.flip tabulates).imp ?_
    rintro fields texts ⟨r, ⟨fits, held⟩, rendered⟩
    exact keepsLast_of_renders fits held rendered
  refine ⟨s, d, table, place, settled, shows, ?_, ?_, keeps, ?_⟩
  · rw [tree_eq, delivers, found]
    exact congrArg (fun b => Except.ok (place, Node.file b)) bytes
  · intro texts mem
    obtain ⟨r, -, rendered⟩ := exists_of_mem_right tabulates mem
    exact rendered.length_eq.symm
  · exact forall₂_iff_forall_mem (keeps.imp fun _ _ keeps => keeps.passesThrough_iff)

/-- A directory with a table of one record. -/
def oneRecord : FileTree where
  here := []
  nodes := [(.named [], .directory), (.named ["in.csv"], .file (Text.toBytes "1,2,a,b\n"))]
  unused := 0

/-- The settings under which its columns have some names. -/
def namedSettings (names : List String) : Settings where
  axis := "h"
  quantities := ["q"]
  columns := some names
  columnsFromHeader := false
  delimiter := 44
  sentinel := .absent
  hasHeaderRow := false
  lenient := false
  palette := .standard

/-- Under four names, a column is scaled and the fields of the others pass
through. -/
theorem scaled_beside_others :
    let names := ["h", "q", "x", "y"]
    let arguments := ["scale", "in.csv", "out.csv", "--columns", "h,q,x,y", "--axis", "h",
      "--quantities", "q", "--delimiter", ",", "--column", "q", "--factor", "2"]
    oneRecord.IsTree ∧ (runCommandLine arguments oneRecord).exitCode = 0 ∧
      ∃ table place, ((runCommandLine arguments oneRecord).tree oneRecord).find "out.csv" =
          .ok (place, .file ((names :: table).flatMap (Delimited.encodeTexts 44))) ∧
        List.Forall₂ (PassesThrough names ["q"]) [["1", "2", "a", "b"]] table := by
  intro names arguments
  let overrides : Overrides := ⟨["q"], names, false, some "h", some ',', none, false, false⟩
  have tree : oneRecord.IsTree := isTree_of_nodes (by decide) (by decide)
  have parsed : CommandLine.parse arguments =
      .ok ⟨none, 0, false, .scale "in.csv" "out.csv" "q" (.ofDecimal false ⟨2, 0⟩) overrides⟩ := by
    decide +kernel
  have ended : (runCommandLine arguments oneRecord).exitCode = 0 := by decide +kernel
  obtain ⟨s, d, table, place, settled, shows, found, -, -, passes⟩ :=
    fields_pass_through tree parsed rfl ended
  have settled' : Run.settings oneRecord none overrides .eoc = .ok (namedSettings names) := by
    decide +kernel
  cases settled.symm.trans settled'
  have shows' : (namedSettings names).Shows oneRecord "in.csv" ⟨names, [["1", "2", "a", "b"]]⟩ :=
    ⟨rfl, ["in.csv"], _, rfl, by decide +kernel⟩
  cases shows.unique shows'
  refine ⟨tree, ended, table, place, found, passes.mpr ?_⟩
  intro fields _
  exact consistent_of_nodup (by decide)

/-- Under three names, of which the last stands at two positions, the field at the
first of them is lost. -/
theorem repeated_name_overwritten :
    let names := ["h", "q", "x", "x"]
    let written := ["1", "2", "b", "b", "none"]
    let arguments := ["eoc", "in.csv", "out.csv", "--columns", "h,q,x,x", "--axis", "h",
      "--quantities", "q", "--delimiter", ","]
    (runCommandLine arguments oneRecord).exitCode = 0 ∧
      (namedSettings names).Shows oneRecord "in.csv" ⟨names, [["1", "2", "a", "b"]]⟩ ∧
      ((runCommandLine arguments oneRecord).tree oneRecord).find "out.csv" =
        .ok (["out.csv"],
          .file ([names ++ ["EOC_q"], written].flatMap (Delimited.encodeTexts 44))) ∧
      ¬ PassesThrough names [] ["1", "2", "a", "b"] written := by
  intro names written arguments
  refine ⟨by decide +kernel, ⟨rfl, ["in.csv"], _, rfl, by decide +kernel⟩, by decide +kernel, ?_⟩
  intro passes
  have first : some "b" = some "a" := passes 2 "x" rfl List.not_mem_nil
  exact absurd first (by decide)

end RefinementTables
