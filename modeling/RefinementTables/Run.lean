import RefinementTables.CommandLine.Parse
import RefinementTables.Convergence.Augment
import RefinementTables.Scaling
import RefinementTables.Settings
import RefinementTables.Staging

/-!
Runs: what a command does to a tree of files.

A run reads its inputs, stages its outputs, commits them and reports. Nothing
before the commit changes a file, and nothing after it can fail.

The paths of its inputs and outputs are texts, that is valid Unicode, so that a
figure can name its table by the last name of the table's path, as it is.
-/

namespace RefinementTables

/-- What a run leaves. -/
structure Outcome where
  result : Except Fault Unit
  tree : FileTree
  events : List Event

namespace Run

/-- A run that stops before it has touched anything. -/
def stop (t : FileTree) (events : List Event) (fault : Fault) : Outcome :=
  ⟨.error fault, t, events⟩

/-- What a table's writing has left, as the filling of a file. -/
def filling (written : Written) (events : List Event) : Filling Nat :=
  ⟨written.bytes, written.result, events⟩

/-- A report that outputs were written, with the number of their rows. -/
def wrote (outputs : List String) (details : List (String × String)) : Event :=
  let names := ", ".intercalate outputs
  ⟨.info, s!"wrote {names}", details⟩

/-! ### Outputs -/

/-- An output of a run: its path and what fills it. -/
structure Output where
  target : String
  filling : Filling Nat

/-- Stages outputs one after the other, and gives the numbers of their rows. The
first failure drops what was staged before. -/
def stageAll (batch : Batch) (t : FileTree) : List Output → Staging (List Nat)
  | [] => ⟨.ok [], batch, t, []⟩
  | output :: rest =>
    let first := batch.stage t output.target output.filling
    match first.result with
    | .error fault => ⟨.error fault, [], first.batch.drop first.tree, first.events⟩
    | .ok rows =>
      let later := stageAll first.batch first.tree rest
      { later with
        result := later.result.map (rows :: ·)
        events := first.events ++ later.events }

/-- Stages outputs and commits them together; `report` gives the events of
success. -/
def deliver (t : FileTree) (before : List Event) (outputs : List Output)
    (report : List String → List Nat → List Event) : Outcome :=
  let staged := stageAll [] t outputs
  match staged.result with
  | .error fault => ⟨.error fault, staged.tree, before ++ staged.events⟩
  | .ok rows =>
    let committed := staged.batch.commit staged.tree
    let events := before ++ staged.events ++ committed.events
    match committed.result with
    | .error fault => ⟨.error fault, committed.tree, events⟩
    | .ok targets => ⟨.ok (), committed.tree, events ++ report targets rows⟩

/-! ### Merging -/

/-- The inputs of a merge: what is compared, the figure's styles, and the
schemes. -/
structure MergeInputs where
  comparison : Comparison
  styles : List Style
  schemes : List Scheme

/-- Opens the schemes of a merge. Names that clash and a palette without colours
are found before any file is. -/
def openSchemes (s : Settings) (t : FileTree) (files titles : List String) :
    Except Fault MergeInputs := do
  let comparison : Comparison := ⟨s.axis, s.quantities⟩
  let _ ← comparison.columns titles
  let styles ← s.palette.styles titles
  let schemes ← (files.zip titles).mapM fun (file, title) => do
    let source ← s.openStudy t file
    pure ⟨title, source.rows⟩
  pure ⟨comparison, styles, schemes⟩

/-- The outputs of a merge: the compared table, and its figure if one is
wanted. -/
def mergeOutputs (s : Settings) (inputs : MergeInputs) (table : ComparedTable)
    (caption outPrefix : String) (plot : Option FigureFormat) : List Output :=
  let target := s!"{outPrefix}.csv"
  let written := (s.layout table.columns).write (table.rows.map .ok)
  let figure :=
    Figure.ofComparison inputs.comparison inputs.styles (fileName target) s.delimiter caption
  ⟨target, filling written []⟩ ::
    plot.toList.map fun format =>
      ⟨s!"{outPrefix}.{format.extension}", ⟨Text.toBytes (format.render figure), .ok 0, []⟩⟩

/-- Merges schemes into one table. -/
def merge (s : Settings) (t : FileTree) (inputs : List String) (caption outPrefix : String)
    (plot : Option FigureFormat) : Outcome :=
  let opened := do
    let (files, titles) ← filesAndTitles inputs
    openSchemes s t files titles
  match opened with
  | .error fault => stop t [] fault
  | .ok opened =>
    match opened.comparison.merge opened.schemes with
    | .error fault => stop t [] fault
    | .ok table =>
      let warnings := table.truncation.toList.map fun w => Event.warning w.text
      deliver t warnings (mergeOutputs s opened table caption outPrefix plot)
        fun targets rows =>
          [wrote targets [("rows", toString (rows.headD 0)),
            ("warnings", toString warnings.length)]]

/-! ### Augmenting -/

/-- The report of a fitted order. -/
def fitted (quantity : String) (order : Option Binary64) : Event :=
  let value := match order with
    | some p => p.fixedText 3
    | none => "not enough levels"
  ⟨.info, s!"fitted order for {quantity}: {value}", []⟩

/-- Adds its rates to a scheme's table. Of the steps only those count that the
writing has asked for. -/
def eoc (s : Settings) (t : FileTree) (input output : String) : Outcome :=
  let study : Study := ⟨s.axis, s.quantities, s.lenient⟩
  let opened := do
    let source ← s.openStudy t input
    let columns ← study.augmentedColumns source.columns
    pure (source, columns)
  match opened with
  | .error fault => stop t [] fault
  | .ok (source, columns) =>
    let steps := study.augment source.rows
    let written := (s.layout columns).write (steps.map Study.Step.item)
    let asked := steps.take (written.rows + 1)
    let warnings := asked.flatMap fun step => step.passed.map Study.warning
    let orders := (study.progressAfter steps).orders
    deliver t [] [⟨output, filling written warnings⟩] fun _ rows =>
      (s.quantities.zip orders).map (fun (quantity, order) => fitted quantity order) ++
        [wrote [output] [("rows", toString (rows.headD 0))]]

/-! ### Scaling -/

/-- Multiplies one column of a table by a factor. -/
def scale (s : Settings) (t : FileTree) (input output column : String) (factor : Binary64) :
    Outcome :=
  match s.openFor t input [column] with
  | .error fault => stop t [] fault
  | .ok source =>
    let written := (s.layout source.columns).write (source.rows.scale column factor)
    deliver t [] [⟨output, filling written []⟩] fun _ rows =>
      [wrote [output] [("rows", toString (rows.headD 0))]]

/-! ### Invocations -/

/-- The settings of a run: the configuration file's, overridden by the command
line's, with the gaps filled from the command's defaults. -/
def settings (t : FileTree) (configuration : Option String) (overrides : Overrides)
    (defaults : Defaults) : Except Fault Settings := do
  let preferences ← match configuration with
    | some path => Preferences.load t path
    | none => pure .standard
  (overrides.apply preferences).resolve defaults

/-- Runs with settings, if there are any. -/
def withSettings (t : FileTree) (settings : Except Fault Settings) (run : Settings → Outcome) :
    Outcome :=
  match settings with
  | .error fault => stop t [] fault
  | .ok s => run s

end Run

/-- Carries out an invocation. -/
def Invocation.run (i : Invocation) (t : FileTree) : Outcome :=
  match i.command with
  | .merge inputs caption outPrefix plot noPlot overrides =>
    Run.withSettings t (Run.settings t i.configuration overrides .merge) fun s =>
      Run.merge s t inputs caption outPrefix (if noPlot then none else some plot)
  | .eoc input output overrides =>
    Run.withSettings t (Run.settings t i.configuration overrides .eoc) fun s =>
      Run.eoc s t input output
  | .scale input output column factor overrides =>
    Run.withSettings t (Run.settings t i.configuration overrides .eoc) fun s =>
      Run.scale s t input output column factor

/-- What a command line comes to: a misuse, or the outcome of a run. -/
inductive Conclusion where
  | misuse (m : Misuse)
  | finished (outcome : Outcome)

/-- Runs a command line, without the program's name. -/
def runCommandLine (arguments : List String) (t : FileTree) : Conclusion :=
  match CommandLine.parse arguments with
  | .error m => .misuse m
  | .ok invocation => .finished (invocation.run t)

namespace Conclusion

/-- The tree that is left; usage leaves it as it was. -/
def tree (before : FileTree) : Conclusion → FileTree
  | misuse _ => before
  | finished outcome => outcome.tree

def exitCode : Conclusion → Nat
  | misuse m => m.exitCode
  | finished outcome => if outcome.result.isOk then 0 else 1

end Conclusion

end RefinementTables
