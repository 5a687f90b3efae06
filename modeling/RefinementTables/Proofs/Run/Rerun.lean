import RefinementTables.Proofs.Run.Merge
import RefinementTables.Proofs.Staging.Sessions

/-!
Running a command line again.

A run sees a tree through what its inputs lead to, and through the ways to its
outputs. What it leaves changes neither if no output is one of the inputs.

* `Rereads` — a run whose outputs depend on its inputs only.
* `Rereads.again` — such a run ends well again if it has done so.
* `rerun_changes_nothing` — a command line that has ended well ends well on the tree
  that it left, and changes nothing there.
-/

namespace RefinementTables

open FileTree

variable {t t' : FileTree}

/-! ### Reading again -/

/-- Two paths that name the same file. -/
def FileTree.SameFile (t : FileTree) (path path' : String) : Prop :=
  ∃ place, t.filePlace? path = some place ∧ t.filePlace? path' = some place

instance (t : FileTree) (path path' : String) : Decidable (t.SameFile path path') :=
  decidable_of_iff (t.filePlace? path ≠ none ∧ t.filePlace? path' = t.filePlace? path) <| by
    rw [Option.ne_none_iff_exists']
    constructor
    · rintro ⟨⟨place, named⟩, same⟩
      exact ⟨place, named, same.trans named⟩
    · rintro ⟨place, named, named'⟩
      exact ⟨⟨place, named⟩, named'.trans named.symm⟩

/-- What a path leads to in a tree with the same ways, if it is still there. -/
theorem FileTree.find_of_sameWays {path : String} {place : Place} {node : Node}
    (same : SameWays t t') (found : t.find path = .ok (place, node))
    (kept : t'.get? (.named place) = t.get? (.named place)) : t'.find path = .ok (place, node) := by
  obtain ⟨checked, walked, there⟩ := find_eq_ok_iff.mp found
  refine find_eq_ok_iff.mpr ⟨checked, ?_, kept.trans there⟩
  rw [same.start_eq]
  exact same.walk_eq_ok_iff.mpr walked

theorem recordsAt_congr {path : String} (same : t'.find path = t.find path) (delimiter : UInt8) :
    recordsAt t' path delimiter = recordsAt t path delimiter := by
  rw [recordsAt, same, recordsAt]

theorem Preferences.load_congr {path : String} (same : t'.find path = t.find path) :
    Preferences.load t' path = Preferences.load t path := by
  rw [load, same, load]

theorem Settings.openFor_congr {s : Settings} {path : String} (same : t'.find path = t.find path)
    (needed : List String) : s.openFor t' path needed = s.openFor t path needed := by
  simp only [openFor, schemaOf, namesInHeader, openWith, Source.ofTree, recordsAt_congr same]

theorem recordsAt_found {path : String} {delimiter : UInt8}
    {records : List (Except DelimitedFault Delimited.Entry)}
    (ok : recordsAt t path delimiter = .ok records) : ∃ found, t.find path = .ok found := by
  unfold recordsAt at ok
  cases found : t.find path with
  | error cause =>
    rw [found] at ok
    cases cause <;> cases ok
  | ok r => exact ⟨r, rfl⟩

theorem Preferences.load_found {path : String} {p : Preferences}
    (ok : Preferences.load t path = .ok p) : ∃ found, t.find path = .ok found := by
  unfold load at ok
  cases found : t.find path with
  | error cause =>
    rw [found] at ok
    cases cause <;> cases ok
  | ok r => exact ⟨r, rfl⟩

theorem Settings.openFor_found {s : Settings} {path : String} {needed : List String}
    {source : Source} (opened : s.openFor t path needed = .ok source) :
    ∃ found, t.find path = .ok found := by
  obtain ⟨schema, -, h⟩ := bind_eq_ok_iff.mp opened
  obtain ⟨-, -, h⟩ := bind_eq_ok_iff.mp h
  obtain ⟨start, started, -⟩ := bind_eq_ok_iff.mp h
  obtain ⟨records, read, -⟩ := bind_eq_ok_iff.mp started
  exact recordsAt_found read

/-! ### Delivering again -/

namespace Run

/-- Delivering the same outputs again changes nothing. -/
theorem Leaves.again {outputs : List Output} {t'' : FileTree} (first : Leaves outputs t t')
    (second : Leaves outputs t' t'') : Agrees t' t'' := by
  refine ⟨second.ways.here, fun a => ?_⟩
  cases a with
  | temporary directory serial => exact second.temporaries directory serial
  | named place =>
    rw [second.named, first.ways.contentsOf_eq, first.named]
    cases (t.contentsOf (outputs.map Output.content) place).getLast? <;> rfl

/-- What a path leads to is left, unless an output names it. -/
theorem Leaves.find_eq {outputs : List Output} {path : String} (leaves : Leaves outputs t t')
    (tree : t.IsTree) (found : ∃ r, t.find path = .ok r)
    (apart : ∀ o ∈ outputs, ¬ t.SameFile o.target path) : t'.find path = t.find path := by
  obtain ⟨⟨place, node⟩, found⟩ := found
  rw [found]
  refine find_of_sameWays leaves.ways found ?_
  have there := (find_eq_ok_iff.mp found).2.2
  cases node with
  | directory =>
    rw [there]
    exact isDirectory_iff.mp ((leaves.ways.directories place).trans (isDirectory_iff.mpr there))
  | file bytes =>
    have named := ((find_file_iff tree).mp found).1
    exact leaves.kept fun o mem names => apart o mem ⟨place, names, named⟩

/-! ### Runs that are determined by their inputs -/

/-- A run has found some paths, and on every tree where these lead to the same it
delivers the same outputs, to other given paths. -/
def Rereads (run : FileTree → Outcome) (t : FileTree) (inputs outputs : List String) : Prop :=
  (∀ path ∈ inputs, ∃ found, t.find path = .ok found) ∧
  ∃ before made report, made.map Output.target = outputs ∧
    ∀ t', (∀ path ∈ inputs, t'.find path = t.find path) → run t' = deliver t' before made report

/-- A run that ends well, and is determined by inputs that are no outputs, ends well
again and changes nothing. -/
theorem Rereads.again {run : FileTree → Outcome} {inputs outputs : List String} (tree : t.IsTree)
    (rereads : Rereads run t inputs outputs)
    (apart : ∀ output ∈ outputs, ∀ input ∈ inputs, ¬ t.SameFile output input)
    (ended : (run t).result = .ok ()) :
    (run (run t).tree).result = .ok () ∧ Agrees (run t).tree (run (run t).tree).tree ∧
      SameTemporaries t (run t).tree := by
  obtain ⟨found, before, made, report, rfl, delivers⟩ := rereads
  have first := delivers t fun _ _ => rfl
  rw [first] at ended ⊢
  have leaves := deliver_leaves tree ended
  have second := delivers (deliver t before made report).tree fun path mem =>
    leaves.find_eq tree (found path mem) fun o ho => apart _ (List.mem_map_of_mem ho) path mem
  have deliverable := (deliver_ok_iff tree).mp ended
  have ended' : (deliver (deliver t before made report).tree before made report).result = .ok () :=
    (deliver_ok_iff leaves.tree).mpr fun o mem =>
      (Output.deliverable_of_sameWays leaves.ways).mpr (deliverable o mem)
  rw [second]
  exact ⟨ended', leaves.again (deliver_leaves leaves.tree ended'), leaves.temporaries⟩

variable {s : Settings} {inputs : List String} {input output column caption outPrefix : String}
  {factor : Binary64} {plot : Option FigureFormat}

/-- The schemes of a merge are opened again from files that are still there. -/
theorem openSchemes_again {files titles : List String} {opened : MergeInputs}
    (ok : openSchemes s t files titles = .ok opened)
    (same : ∀ file ∈ files, t'.find file = t.find file) :
    openSchemes s t' files titles = .ok opened := by
  obtain ⟨columns, named, h⟩ := bind_eq_ok_iff.mp ok
  obtain ⟨styles, styled, h⟩ := bind_eq_ok_iff.mp h
  obtain ⟨schemes, mapped, h⟩ := bind_eq_ok_iff.mp h
  refine bind_eq_ok_iff.mpr ⟨columns, named, bind_eq_ok_iff.mpr ⟨styles, styled,
    bind_eq_ok_iff.mpr ⟨schemes, mapM_eq_ok_iff.mpr ?_, h⟩⟩⟩
  refine forall₂_of_mem (mapM_eq_ok_iff.mp mapped) ?_
  rintro ⟨file, title⟩ mem scheme - opened_ok
  obtain ⟨source, opened, h⟩ := bind_eq_ok_iff.mp opened_ok
  refine bind_eq_ok_iff.mpr ⟨source, ?_, h⟩
  rw [← opened]
  exact Settings.openFor_congr (same file (List.of_mem_zip mem).1) _

theorem merge_rereads (ended : (merge s t inputs caption outPrefix plot).result = .ok ()) :
    Rereads (merge s · inputs caption outPrefix plot) t (inputs.take (inputs.length / 2))
      (s!"{outPrefix}.csv" :: plot.toList.map fun format =>
        s!"{outPrefix}.{format.extension}") := by
  unfold merge at ended
  dsimp only at ended
  split at ended
  · cases ended
  · next opened opened_ok =>
    obtain ⟨⟨files, titles⟩, halves, schemes_ok⟩ := bind_eq_ok_iff.mp opened_ok
    obtain ⟨rfl, sized⟩ := filesAndTitles_eq_ok_iff.mp halves
    have half : (files ++ titles).take ((files ++ titles).length / 2) = files := by
      have middle : (files ++ titles).length / 2 = files.length := by
        rw [List.length_append]
        omega
      rw [middle, List.take_left]
    rw [half]
    split at ended
    · cases ended
    · next table merged =>
      have found : ∀ file ∈ files, ∃ found, t.find file = .ok found := by
        intro file mem
        obtain ⟨-, -, -, sources⟩ := openSchemes_ok sized schemes_ok
        obtain ⟨scheme, -, source, opened, -⟩ := exists_of_mem_left sources mem
        exact Settings.openFor_found opened
      refine ⟨found, _, mergeOutputs s opened table caption outPrefix plot, _,
        mergeOutputs_targets .., fun t' same => by
          have again : (filesAndTitles (files ++ titles) >>= fun p => openSchemes s t' p.1 p.2) =
              .ok opened := by
            rw [halves]
            exact openSchemes_again schemes_ok same
          unfold merge
          simp only [again, merged]
          rfl⟩

theorem eoc_rereads (ended : (eoc s t input output).result = .ok ()) :
    Rereads (eoc s · input output) t [input] [output] := by
  unfold eoc at ended
  dsimp only at ended
  split at ended
  · cases ended
  · next source columns opened_ok =>
    obtain ⟨source', opened, -⟩ := bind_eq_ok_iff.mp opened_ok
    have reopened : ∀ t', (∀ path ∈ [input], t'.find path = t.find path) →
        s.openStudy t' input = s.openStudy t input := fun t' same =>
      Settings.openFor_congr (same input List.mem_cons_self) _
    refine ⟨List.forall_mem_singleton.mpr (Settings.openFor_found opened), _, [⟨output, _⟩], _, rfl,
      fun t' same => by
        unfold eoc
        simp only [reopened t' same, opened_ok]
        rfl⟩

theorem scale_rereads (ended : (scale s t input output column factor).result = .ok ()) :
    Rereads (scale s · input output column factor) t [input] [output] := by
  unfold scale at ended
  split at ended
  · cases ended
  · next source opened =>
    refine ⟨List.forall_mem_singleton.mpr (Settings.openFor_found opened), _, [⟨output, _⟩], _, rfl,
      fun t' same => by
        unfold scale
        simp only [Settings.openFor_congr (same input List.mem_cons_self), opened]
        rfl⟩

/-- A run under the settings of a configuration is determined by this as well. -/
theorem withSettings_rereads {configuration : Option String} {overrides : Overrides}
    {defaults : Defaults} {run : Settings → FileTree → Outcome} {outputs : List String}
    (ended : (withSettings t (settings t configuration overrides defaults) (run · t)).result = .ok ())
    (rereads : ∀ s, (run s t).result = .ok () → Rereads (run s) t inputs outputs) :
    Rereads (fun t => withSettings t (settings t configuration overrides defaults) (run · t)) t
      (configuration.toList ++ inputs) outputs := by
  obtain ⟨s, settled, run_ok, -⟩ := withSettings_ok ended
  obtain ⟨found, before, made, report, targets, delivers⟩ := rereads s run_ok
  refine ⟨List.forall_mem_append.mpr ⟨?_, found⟩, before, made, report, targets, ?_⟩
  · rintro path mem
    obtain rfl := Option.mem_toList.mp mem
    obtain ⟨p, loaded, -⟩ := bind_eq_ok_iff.mp settled
    exact Preferences.load_found loaded
  · intro t' same
    obtain ⟨same_configuration, same_inputs⟩ := List.forall_mem_append.mp same
    have resettled : settings t' configuration overrides defaults = .ok s := by
      rw [← settled]
      cases configuration with
      | none => rfl
      | some path =>
        rw [settings, settings, Preferences.load_congr (same_configuration path (by simp))]
    simp only [resettled]
    exact delivers t' same_inputs

end Run

/-! ### Command lines -/

/-- The paths of the tables that a command reads. -/
def Command.inputs : Command → List String
  | .merge inputs .. => inputs.take (inputs.length / 2)
  | .eoc input .. => [input]
  | .scale input .. => [input]

/-- The paths that a command line asks to be read: its configuration, and the tables
of its command. -/
def inputsOf (arguments : List String) : List String :=
  match CommandLine.parse arguments with
  | .error _ => []
  | .ok i => i.configuration.toList ++ i.command.inputs

theorem Invocation.run_rereads {i : Invocation} (ended : (i.run t).result = .ok ()) :
    Run.Rereads i.run t (i.configuration.toList ++ i.command.inputs) i.command.outputs := by
  obtain ⟨configuration, verbosity, quiet, command⟩ := i
  cases command with
  | merge inputs caption outPrefix plot noPlot overrides =>
    refine Run.withSettings_rereads ended fun s ok => ?_
    have rereads := Run.merge_rereads ok
    cases noPlot <;> exact rereads
  | eoc input output overrides =>
    exact Run.withSettings_rereads ended fun s ok => Run.eoc_rereads ok
  | scale input output column factor overrides =>
    exact Run.withSettings_rereads ended fun s ok => Run.scale_rereads ok

/-- A command line that ends well and writes none of the files that it reads ends
well again on the tree that it left, and changes nothing there. Neither run leaves a
temporary: there are none, unless there were some before. -/
theorem rerun_changes_nothing (tree : t.IsTree) {arguments : List String}
    (apart : ∀ output ∈ outputsOf arguments, ∀ input ∈ inputsOf arguments,
      ¬ t.SameFile output input)
    (ended : (runCommandLine arguments t).exitCode = 0) :
    let left := (runCommandLine arguments t).tree t
    let again := runCommandLine arguments left
    again.exitCode = 0 ∧ Agrees left (again.tree left) ∧ SameTemporaries t left ∧
      (t.Clean → left.temporaries [] = 0 ∧ (again.tree left).temporaries [] = 0) := by
  intro left again
  have unchanged : again.exitCode = 0 ∧ Agrees left (again.tree left) ∧ SameTemporaries t left := by
    cases parsed : CommandLine.parse arguments with
    | error m =>
      have misused : ∀ t, runCommandLine arguments t = .misuse m := fun t => by
        rw [runCommandLine, parsed]
      simp only [left, again, misused] at ended ⊢
      exact ⟨ended, .refl t, fun _ _ => rfl⟩
    | ok i =>
      obtain ⟨run_ok, tree_eq⟩ := Run.runs_of_exitCode parsed ended
      rw [outputsOf, inputsOf, parsed] at apart
      obtain ⟨ended', same, temporaries⟩ := (i.run_rereads run_ok).again tree apart run_ok
      have finished : again = .finished (i.run (i.run t).tree) := by
        simp only [again, left, tree_eq]
        rw [runCommandLine, parsed]
      rw [finished, Conclusion.exitCode, ended']
      simp only [left, tree_eq]
      exact ⟨rfl, same, temporaries⟩
  obtain ⟨ended', same, temporaries⟩ := unchanged
  refine ⟨ended', same, temporaries, fun clean => ?_⟩
  have left_clean := clean.of_sameTemporaries temporaries
  have again_clean : (again.tree left).Clean :=
    left_clean.of_sameTemporaries fun directory serial => same.nodes _
  exact ⟨left_clean.temporaries_eq_zero [], again_clean.temporaries_eq_zero []⟩

/-- Two tables, and a file at the place of one of the two outputs of their merge. -/
def halfMerged : FileTree where
  here := []
  nodes := [
    (.named [], .directory),
    (.named ["a.csv"], .file (Text.toBytes "h,e\n1,2\n3,4\n")),
    (.named ["b.csv"], .file (Text.toBytes "h,e\n1,5\n")),
    (.named ["out.csv"], .file (Text.toBytes "old\n"))]
  unused := 0

/-- A merge that replaces its table and makes a new figure, and then replaces
both. -/
theorem merged_twice :
    let arguments :=
      ["merge", "a.csv", "b.csv", "A", "B", "--columns-from-header", "--delimiter", ",",
        "--axis", "h", "--quantities", "e"]
    let left := (runCommandLine arguments halfMerged).tree halfMerged
    let again := runCommandLine arguments left
    halfMerged.IsTree ∧ outputsOf arguments = ["out.csv", "out.tex"] ∧
      (∀ output ∈ outputsOf arguments, ∀ input ∈ inputsOf arguments,
        ¬ halfMerged.SameFile output input) ∧
      (runCommandLine arguments halfMerged).exitCode = 0 ∧
      left.get? (.named ["out.csv"]) = some (.file (Text.toBytes "h,e_A,e_B\n1,2,5\n")) ∧
      again.exitCode = 0 ∧ Agrees left (again.tree left) ∧
      (again.tree left).temporaries [] = 0 := by
  intro arguments left again
  have tree : halfMerged.IsTree := isTree_of_nodes (by decide) (by decide)
  have clean : halfMerged.Clean := fun _ _ => rfl
  have outputs : outputsOf arguments = ["out.csv", "out.tex"] := by decide +kernel
  have apart : ∀ output ∈ outputsOf arguments, ∀ input ∈ inputsOf arguments,
      ¬ halfMerged.SameFile output input := by decide +kernel
  have ended : (runCommandLine arguments halfMerged).exitCode = 0 := by decide +kernel
  obtain ⟨ended', same, -, none_left⟩ := rerun_changes_nothing tree apart ended
  exact ⟨tree, outputs, apart, ended, by decide +kernel, ended', same, (none_left clean).2⟩

end RefinementTables
