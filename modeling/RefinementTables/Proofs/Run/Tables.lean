import RefinementTables.Proofs.Run.Disk

/-!
The tables that a command reads and the one that it writes, and what a command line
that ends well has done.

* `Reads`, `Writes` — which columns a command asks of which source, and which
  stream it writes under which layout.
* `runs_of_exitCode`, `withSettings_ok` — a command line that ends well has run its
  command, under the settings that it comes to.
* `deliver_filled` — what is delivered has been filled without a fault.
-/

namespace RefinementTables

open FileTree

variable {t : FileTree}

namespace Run

/-- A command asks columns of every row of a source. -/
inductive Reads (s : Settings) (t : FileTree) : Command → List String → Source → Prop where
  | merge {inputs files titles : List String} {caption outPrefix : String} {plot : FigureFormat}
      {noPlot : Bool} {overrides : Overrides} {file : String} {source : Source}
      (halves : filesAndTitles inputs = .ok (files, titles)) (mem : file ∈ files)
      (opened : s.openStudy t file = .ok source) :
      Reads s t (.merge inputs caption outPrefix plot noPlot overrides) (s.axis :: s.quantities)
        source
  | eoc {input output : String} {overrides : Overrides} {source : Source}
      (opened : s.openStudy t input = .ok source) :
      Reads s t (.eoc input output overrides) (s.axis :: s.quantities) source
  | scale {input output column : String} {factor : Binary64} {overrides : Overrides}
      {source : Source} (opened : s.openFor t input [column] = .ok source) :
      Reads s t (.scale input output column factor overrides) [column] source

/-- A command writes a stream under a layout. -/
inductive Writes (s : Settings) (t : FileTree) : Command → Layout → RowStream → Prop where
  | merge {inputs files titles : List String} {caption outPrefix : String} {plot : FigureFormat}
      {noPlot : Bool} {overrides : Overrides} {inputs' : MergeInputs} {table : ComparedTable}
      (halves : filesAndTitles inputs = .ok (files, titles))
      (opened : openSchemes s t files titles = .ok inputs')
      (merged : inputs'.comparison.merge inputs'.schemes = .ok table) :
      Writes s t (.merge inputs caption outPrefix plot noPlot overrides) (s.layout table.columns)
        (table.rows.map .ok)
  | eoc {input output : String} {overrides : Overrides} {source : Source} {columns : List String}
      (opened : s.openStudy t input = .ok source)
      (named : (Study.mk s.axis s.quantities s.lenient).augmentedColumns source.columns =
        .ok columns) :
      Writes s t (.eoc input output overrides) (s.layout columns)
        (((Study.mk s.axis s.quantities s.lenient).augment source.rows).map Study.Step.item)
  | scale {input output column : String} {factor : Binary64} {overrides : Overrides}
      {source : Source} (opened : s.openFor t input [column] = .ok source) :
      Writes s t (.scale input output column factor overrides) (s.layout source.columns)
        (source.rows.scale column factor)

/-! ### Runs that end well -/

theorem withSettings_ok {settings : Except Fault Settings} {run : Settings → Outcome}
    (ended : (withSettings t settings run).result = .ok ()) :
    ∃ s, settings = .ok s ∧ (run s).result = .ok () ∧ withSettings t settings run = run s := by
  cases settings with
  | error fault => cases ended
  | ok s => exact ⟨s, rfl, ended, rfl⟩

/-- A command line that ends well has carried out its invocation. -/
theorem runs_of_exitCode {arguments : List String} {i : Invocation}
    (parsed : CommandLine.parse arguments = .ok i)
    (ended : (runCommandLine arguments t).exitCode = 0) :
    (i.run t).result = .ok () ∧ (runCommandLine arguments t).tree t = (i.run t).tree := by
  have finished : runCommandLine arguments t = .finished (i.run t) := by
    rw [runCommandLine, parsed]
  rw [finished] at ended ⊢
  rw [Conclusion.exitCode] at ended
  cases result : (i.run t).result with
  | error fault =>
    rw [result] at ended
    cases ended
  | ok u => exact ⟨rfl, rfl⟩

variable {s : Settings} {input output : String}

/-- A run that adds rates and ends well has opened its file and delivered the
augmented table. -/
theorem eoc_delivers {overrides : Overrides} (ended : (eoc s t input output).result = .ok ()) :
    ∃ l stream warnings report, Writes s t (.eoc input output overrides) l stream ∧
      eoc s t input output = deliver t [] [⟨output, filling (l.write stream) warnings⟩] report := by
  unfold eoc at ended ⊢
  dsimp only at ended ⊢
  split at ended
  · cases ended
  · next source columns opened_ok =>
    obtain ⟨source', opened, h⟩ := bind_eq_ok_iff.mp opened_ok
    obtain ⟨columns', named, h⟩ := bind_eq_ok_iff.mp h
    cases h
    exact ⟨_, _, _, _, .eoc opened named, rfl⟩

/-- So has a run that scales a column. -/
theorem scale_delivers {column : String} {factor : Binary64} {overrides : Overrides}
    (ended : (scale s t input output column factor).result = .ok ()) :
    ∃ l stream warnings report,
      Writes s t (.scale input output column factor overrides) l stream ∧
      scale s t input output column factor =
        deliver t [] [⟨output, filling (l.write stream) warnings⟩] report := by
  unfold scale at ended ⊢
  split at ended
  · cases ended
  · next source opened => exact ⟨_, _, _, _, .scale opened, rfl⟩

/-! ### Fillings -/

/-- Outputs that are delivered have been filled without a fault. -/
theorem deliver_filled {before : List Event} {outputs : List Output}
    {report : List String → List Nat → List Event}
    (ended : (deliver t before outputs report).result = .ok ()) :
    ∀ o ∈ outputs, ∃ count, o.filling.result = .ok count := by
  unfold deliver at ended
  cases staged : (stageAll [] t outputs).result with
  | error fault =>
    simp only [staged] at ended
    cases ended
  | ok rows => exact fun o mem => (stageAll_ok_iff.mp ⟨rows, staged⟩ o mem).1

end Run

end RefinementTables
