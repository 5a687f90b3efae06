import RefinementTables.Proofs.Comparison.Supply
import RefinementTables.Proofs.Convergence.Columns
import RefinementTables.Proofs.Preferences
import RefinementTables.Proofs.Run.Tables
import RefinementTables.Proofs.Scaling
import RefinementTables.Proofs.Settings

/-!
No run ends because a record lacks a column.

The schema of a file is checked when it is opened, and its records when they are
read: what a command asks of a row is there (`Reads.supplied`), and so is every
column of the rows that it writes (`Writes.supplied`).

* `Settings.openFor_supplied` — an opened file has the columns that are needed.
* `never_incomplete` — whatever a command line ends with, it is not a record that
  lacks a column.
-/

namespace RefinementTables

open FileTree

variable {t : FileTree}

/-! ### Settings -/

theorem Preferences.findsAll_load (t : FileTree) (path : String) :
    FindsAll (Preferences.load t path) := by
  unfold Preferences.load
  split
  · rfl
  · rfl
  · rfl
  · split
    · rfl
    · unfold Preferences.ofText
      split
      · rfl
      · split
        · rfl
        · trivial

theorem Palette.findsAll_check (p : Palette) : FindsAll p.check := by
  unfold Palette.check
  split
  · rfl
  · trivial

theorem Preferences.findsAll_resolve (p : Preferences) (defaults : Defaults) :
    FindsAll (p.resolve defaults) := by
  rw [Preferences.resolve_eq]
  split
  · rfl
  · exact p.palette.findsAll_check.map fun _ _ => trivial

theorem Run.findsAll_settings (t : FileTree) (configuration : Option String)
    (overrides : Overrides) (defaults : Defaults) :
    FindsAll (Run.settings t configuration overrides defaults) := by
  unfold Run.settings
  cases configuration with
  | none => exact Preferences.findsAll_resolve _ _
  | some path =>
    refine (Preferences.findsAll_load t path).bind ?_
    intro preferences _
    exact Preferences.findsAll_resolve _ _

/-! ### Opening -/

theorem findsAll_recordsAt (t : FileTree) (path : String) (delimiter : UInt8) :
    FindsAll (recordsAt t path delimiter) := by
  unfold recordsAt
  split
  · rfl
  · rfl
  · trivial
  · trivial

theorem Source.findsAll_passHeader (source : Source) : FindsAll source.passHeader.1 := by
  unfold passHeader
  split
  · trivial
  · trivial
  · rfl

namespace Settings

variable {s : Settings} {path : String} {needed schema : List String}

theorem findsAll_schemaOf (s : Settings) (t : FileTree) (path : String) :
    FindsAll (s.schemaOf t path) := by
  unfold schemaOf
  split
  · refine (findsAll_recordsAt t path s.delimiter).bind ?_
    intro records _
    split
    · rfl
    · trivial
    · rfl
  · trivial

/-- A column that is not declared is refused before anything is read under the
schema. -/
theorem checkDeclared_error (lacking : ¬ needed ⊆ schema) :
    ∃ missing, checkDeclared path schema needed =
      .error (.settings (.undeclared path missing schema)) := by
  unfold checkDeclared
  split
  · next none_missing =>
    refine absurd ?_ lacking
    intro name asked
    simpa using List.filter_eq_nil_iff.mp none_missing name asked
  · exact ⟨_, rfl⟩

theorem findsAll_checkDeclared : FindsAll (checkDeclared path schema needed) := by
  unfold checkDeclared
  split
  · trivial
  · rfl

theorem findsAll_openWith : FindsAll (s.openWith t path schema) := by
  have started : FindsAll (Source.ofTree t path s.delimiter schema) :=
    (findsAll_recordsAt t path s.delimiter).bind fun _ _ => trivial
  refine started.bind ?_
  intro source _
  split
  · split
    · trivial
    · next fault rest failed =>
      have passed := source.findsAll_passHeader
      rw [failed] at passed
      exact passed
  · trivial

/-- A file that is opened has the columns that are needed. -/
theorem openFor_supplied :
    Finds (fun source => needed ⊆ source.columns) (s.openFor t path needed) := by
  refine (s.findsAll_schemaOf t path).bind ?_
  intro schema _
  refine (findsAll_checkDeclared.of_ok fun _ => checkDeclared_eq_ok_iff.mp).bind ?_
  intro _ declared
  refine findsAll_openWith.of_ok ?_
  intro source opened
  rw [columns_openWith opened]
  exact declared

/-- So every row that is read from it has them. -/
theorem supplies_of_openFor {source : Source} (opened : s.openFor t path needed = .ok source) :
    Supplies needed source.rows :=
  source.supplies_rows.of_subset (openFor_supplied.result opened)

end Settings

namespace Run

variable {s : Settings} {command : Command}

/-! ### Tables -/

theorem openSchemes_supplied {files titles : List String} :
    Finds (fun opened => ∀ scheme ∈ opened.schemes,
        Supplies (opened.comparison.axis :: opened.comparison.quantities) scheme.rows)
      (openSchemes s t files titles) := by
  refine (Comparison.findsAll_columns _ _).bind ?_
  intro columns _
  have styled : FindsAll (s.palette.styles titles) :=
    s.palette.findsAll_check.bind fun _ _ => trivial
  refine styled.bind ?_
  intro styles _
  refine (Finds.mapM (P := fun scheme => Supplies (s.axis :: s.quantities) scheme.rows) ?_).bind ?_
  · rintro ⟨file, title⟩ -
    refine (Settings.openFor_supplied).bind ?_
    intro source declared
    exact source.supplies_rows.of_subset declared
  · intro schemes all
    exact all

/-- What a command asks of the rows of a source is there. -/
theorem Reads.supplied {needed : List String} {source : Source}
    (reads : Reads s t command needed source) : Supplies needed source.rows := by
  cases reads with
  | merge halves mem opened => exact Settings.supplies_of_openFor opened
  | eoc opened => exact Settings.supplies_of_openFor opened
  | scale opened => exact Settings.supplies_of_openFor opened

/-- What a command writes has all columns of its table. -/
theorem Writes.supplied {l : Layout} {stream : RowStream} (writes : Writes s t command l stream) :
    Supplies l.columns stream := by
  cases writes with
  | merge halves opened merged =>
    exact (Comparison.merge_supplied (openSchemes_supplied.result opened)).result merged
  | @eoc input output overrides source columns opened named =>
    obtain ⟨rfl, -⟩ := Study.augmentedColumns_ok named
    exact Study.supplies_augment (Settings.openFor_supplied.result opened) source.supplies_rows
  | @scale input output column factor overrides source opened =>
    have declared := Settings.openFor_supplied.result opened
    exact RowStream.supplies_scale (declared List.mem_cons_self) source.supplies_rows

/-! ### Delivering -/

theorem findsAll_stage {α : Type} {batch : Batch} {target : String} {filling : Filling α}
    (filled : FindsAll filling.result) : FindsAll (batch.stage t target filling).result := by
  unfold Batch.stage
  split
  · rfl
  · dsimp only
    split
    · next fault failed => exact filled.fault failed
    · trivial

theorem findsAll_stageAll {batch : Batch} {outputs : List Output}
    (filled : ∀ o ∈ outputs, FindsAll o.filling.result) :
    FindsAll (stageAll batch t outputs).result := by
  induction outputs generalizing batch t with
  | nil => trivial
  | cons output rest ih =>
    obtain ⟨first, later⟩ := List.forall_mem_cons.mp filled
    rw [stageAll]
    dsimp only
    split
    · next fault failed => exact (findsAll_stage first).fault failed
    · exact (ih later).map fun _ _ => trivial

theorem findsAll_install {done : List Installed} {batch : Batch} :
    FindsAll (Batch.install done batch t).result := by
  induction batch generalizing done t with
  | nil => trivial
  | cons staged rest ih =>
    rw [Batch.install]
    dsimp only
    split
    · exact ih
    · rfl

theorem findsAll_deliver {before : List Event} {outputs : List Output}
    {report : List String → List Nat → List Event}
    (filled : ∀ o ∈ outputs, FindsAll o.filling.result) :
    FindsAll (deliver t before outputs report).result := by
  unfold deliver
  dsimp only
  split
  · next fault failed => exact (findsAll_stageAll filled).fault failed
  · split
    · next fault failed => exact findsAll_install.fault failed
    · trivial

/-! ### Commands -/

theorem findsAll_filesAndTitles (inputs : List String) : FindsAll (filesAndTitles inputs) := by
  unfold filesAndTitles
  split
  · trivial
  · rfl

theorem findsAll_merge (s : Settings) (t : FileTree) (inputs : List String)
    (caption outPrefix : String) (plot : Option FigureFormat) :
    FindsAll (merge s t inputs caption outPrefix plot).result := by
  unfold merge
  dsimp only
  split
  · next fault failed =>
    refine Finds.fault (P := fun _ => True) ((findsAll_filesAndTitles inputs).bind ?_) failed
    rintro ⟨files, titles⟩ -
    exact openSchemes_supplied.all
  · next opened opened_ok =>
    obtain ⟨⟨files, titles⟩, halves, opened_ok⟩ := bind_eq_ok_iff.mp opened_ok
    have compared := Comparison.merge_supplied (openSchemes_supplied.result opened_ok)
    split
    · next fault failed => exact compared.fault failed
    · next table merged =>
      refine findsAll_deliver (List.forall_mem_cons.mpr ⟨?_, ?_⟩)
      · exact Layout.findsAll_write (compared.result merged)
      · exact List.forall_mem_map.mpr fun format _ => trivial

theorem findsAll_eoc (s : Settings) (t : FileTree) (input output : String) :
    FindsAll (eoc s t input output).result := by
  unfold eoc
  dsimp only
  split
  · next fault failed =>
    have opened_finds : FindsAll (s.openStudy t input) := Settings.openFor_supplied.all
    refine Finds.fault (P := fun _ => True) (opened_finds.bind fun source _ => ?_) failed
    exact (Study.findsAll_augmentedColumns _ _).bind fun _ _ => trivial
  · next source columns opened_ok =>
    obtain ⟨source', opened, h⟩ := bind_eq_ok_iff.mp opened_ok
    obtain ⟨columns', named, h⟩ := bind_eq_ok_iff.mp h
    cases h
    have writes : Writes s t (.eoc input output .none) _ _ := .eoc opened named
    exact findsAll_deliver (List.forall_mem_singleton.mpr (Layout.findsAll_write writes.supplied))

theorem findsAll_scale (s : Settings) (t : FileTree) (input output column : String)
    (factor : Binary64) : FindsAll (scale s t input output column factor).result := by
  unfold scale
  split
  · next fault failed => exact Settings.openFor_supplied.fault failed
  · next source opened =>
    have writes : Writes s t (.scale input output column factor .none) _ _ := .scale opened
    exact findsAll_deliver (List.forall_mem_singleton.mpr (Layout.findsAll_write writes.supplied))

theorem findsAll_withSettings {settings : Except Fault Settings} {run : Settings → Outcome}
    (settled : FindsAll settings) (runs : ∀ s, FindsAll (run s).result) :
    FindsAll (withSettings t settings run).result := by
  cases settings with
  | error fault => exact settled
  | ok s => exact runs s

end Run

theorem Invocation.findsAll_run (i : Invocation) (t : FileTree) : FindsAll (i.run t).result := by
  unfold Invocation.run
  cases i.command with
  | merge inputs caption outPrefix plot noPlot overrides =>
    exact Run.findsAll_withSettings (Run.findsAll_settings ..) fun s => Run.findsAll_merge ..
  | eoc input output overrides =>
    exact Run.findsAll_withSettings (Run.findsAll_settings ..) fun s => Run.findsAll_eoc ..
  | scale input output column factor overrides =>
    exact Run.findsAll_withSettings (Run.findsAll_settings ..) fun s => Run.findsAll_scale ..

/-- No command line ends with a record that lacks a column. What a command asks of
the rows of a source is in each of them, and so is every column of the table that
it writes: a schema without a column that is needed is refused when the file is
opened, and a record with another number of fields than its schema is a malformed
row. -/
theorem never_incomplete (t : FileTree) :
    (∀ arguments outcome fault, runCommandLine arguments t = .finished outcome →
      outcome.result = .error fault → fault.kind ≠ "IncompleteRecordError") ∧
    (∀ s command needed source, Run.Reads s t command needed source →
      Supplies needed source.rows) ∧
    (∀ s command l stream, Run.Writes s t command l stream → Supplies l.columns stream) ∧
    (∀ (s : Settings) path schema needed, s.schemaOf t path = .ok schema →
      ¬ needed ⊆ schema → ∃ fault, s.openFor t path needed = .error fault ∧
        fault.kind = "ConfigError") ∧
    (∀ (source : Source) (i : Nat) entry, source.pending[i]? = some (.ok entry) →
      entry.fields.length ≠ source.columns.length →
      ∃ fault, source.rows[i]? = some (.error fault) ∧ fault.kind = "MalformedRowError") := by
  refine ⟨?_, fun _ _ _ _ => Run.Reads.supplied, fun _ _ _ _ => Run.Writes.supplied, ?_, ?_⟩
  · intro arguments outcome fault finished failed
    unfold runCommandLine at finished
    split at finished
    · cases finished
    · next i _ =>
      cases finished
      exact Fault.isIncompleteRecord_eq_false_iff.mp ((i.findsAll_run t).fault failed)
  · intro s path schema needed schema_ok lacking
    obtain ⟨missing, refused⟩ := @Settings.checkDeclared_error path needed schema lacking
    refine ⟨.settings (.undeclared path missing schema), ?_, rfl⟩
    rw [Settings.openFor, schema_ok]
    exact congrArg (· >>= fun _ => s.openWith t path schema) refused
  · intro source i entry there differs
    refine ⟨.malformedRow source.path entry.line source.columns.length entry.fields.length, ?_, rfl⟩
    rw [Source.rows, List.getElem?_map, there]
    exact congrArg some (if_neg differs)

/-- A table whose second record is short. -/
def shortRecord : FileTree where
  here := []
  nodes := [(.named [], .directory), (.named ["in.csv"], .file (Text.toBytes "1,2\n3\n"))]
  unused := 0

/-- A record that is short of the columns that a command asks for is a malformed
row, and a command that asks for a column without declaring it is refused. -/
theorem short_and_undeclared :
    let arguments := fun columns => ["eoc", "in.csv", "out.csv", "--columns", columns,
      "--axis", "h", "--quantities", "q", "--delimiter", ","]
    ∃ short undeclared fault fault',
      runCommandLine (arguments "h,q") shortRecord = .finished short ∧
      short.result = .error fault ∧ fault.kind = "MalformedRowError" ∧
      fault.kind ≠ "IncompleteRecordError" ∧
      runCommandLine (arguments "h") shortRecord = .finished undeclared ∧
      undeclared.result = .error fault' ∧ fault'.kind = "ConfigError" ∧
      fault'.kind ≠ "IncompleteRecordError" := by
  intro arguments
  let invocation : List String → Invocation := fun columns =>
    ⟨none, 0, false, .eoc "in.csv" "out.csv"
      ⟨["q"], columns, false, some "h", some ',', none, false, false⟩⟩
  have parsed : CommandLine.parse (arguments "h,q") = .ok (invocation ["h", "q"]) := by
    decide +kernel
  have parsed' : CommandLine.parse (arguments "h") = .ok (invocation ["h"]) := by decide +kernel
  have finished : runCommandLine (arguments "h,q") shortRecord =
      .finished ((invocation ["h", "q"]).run shortRecord) := by rw [runCommandLine, parsed]
  have finished' : runCommandLine (arguments "h") shortRecord =
      .finished ((invocation ["h"]).run shortRecord) := by rw [runCommandLine, parsed']
  have failed : ((invocation ["h", "q"]).run shortRecord).result =
      .error (.malformedRow "in.csv" 2 2 1) := by decide +kernel
  have failed' : ((invocation ["h"]).run shortRecord).result =
      .error (.settings (.undeclared "in.csv" ["q"] ["h"])) := by decide +kernel
  have other := (never_incomplete shortRecord).1
  exact ⟨_, _, _, _, finished, failed, rfl, other _ _ _ finished failed, finished', failed', rfl,
    other _ _ _ finished' failed'⟩

end RefinementTables
