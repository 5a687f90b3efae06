import RefinementTables.Proofs.Staging.AllOrNothing
import RefinementTables.Run

/-!
What a run leaves on disk.

* `stageAll_error`, `stageAll_ok` — staging the outputs of a run leaves the tree
  as it was, or with their temporaries and nothing else.
* `deliver_ok_iff` — delivering them ends well exactly if all of them can be made
  and their paths admit files.
* `deliver_leaves` — what delivered outputs leave at every place of the tree.
* `deliver_tidy` — delivering them puts every output in place, or leaves the tree
  as it was.
* `run_all_or_nothing` — so does every command line, with the outputs that it
  names.
* `deliver_find` — outputs that name different files are found under their paths,
  with their contents.
-/

namespace RefinementTables

open FileTree

variable {t : FileTree} {batch : Batch}

/-! ### Tidy outcomes -/

/-- Every path names a file of the second tree, and the two trees differ nowhere
else. -/
structure Delivered (paths : List String) (t t' : FileTree) : Prop where
  here : t'.here = t.here
  written : ∀ path ∈ paths, ∃ place bytes, t.filePlace? path = some place ∧
    t'.get? (.named place) = some (.file bytes)
  changed : ∀ a, t'.get? a ≠ t.get? a →
    ∃ path ∈ paths, ∃ place, t.filePlace? path = some place ∧ a = .named place

/-- An outcome that delivers its outputs, or leaves the tree as it was. -/
structure Outcome.Tidy (o : Outcome) (paths : List String) (t : FileTree) : Prop where
  failed : ∀ fault, o.result = .error fault → Agrees t o.tree
  done : o.result = .ok () → Delivered paths t o.tree

/-! ### Commits after staging -/

/-- A commit that stops before its third output leaves the tree as it was before
anything was staged. -/
theorem Committed.StopsAt.agrees {c : Committed} {staged : FileTree}
    {passed later : Batch} {s : Staged} (stops : c.StopsAt passed s later staged)
    (split : batch = passed ++ s :: later) (short : passed.length ≤ 1)
    (clears : batch.Clears staged t) : Agrees t c.tree := by
  refine ⟨stops.here.trans clears.here.symm, ?_⟩
  intro a
  cases a with
  | temporary directory serial =>
    rw [stops.temporary, clears.nodes, split]
  | named place =>
    have once : (passed.contents staged place).length ≤ 1 :=
      Nat.le_trans (List.length_filterMap_le _ _) short
    rw [clears.named]
    exact (stops.put_back_iff place).mpr (.inl (Nat.lt_succ_of_le once))

namespace Run

theorem stop_tidy (t : FileTree) (events : List Event) (fault : Fault) (paths : List String) :
    (stop t events fault).Tidy paths t where
  failed _ _ := .refl t
  done := nofun

/-! ### Staging the outputs -/

/-- The path of an output and its bytes. -/
def Output.content (o : Output) : String × Bytes := (o.target, o.filling.bytes)

/-- A staged output that has the path of an output and holds its content. -/
def Output.StagedAs (o : Output) (t : FileTree) (s : Staged) : Prop :=
  s.target = o.target ∧ s.content? t = some (.file o.filling.bytes)

/-- When an output cannot be staged, what was staged before goes. -/
theorem stageAll_error {outputs : List Output} {fault : Fault} (tree : t.IsTree)
    (held : batch.Held t) (failed : (stageAll batch t outputs).result = .error fault) :
    batch.Clears t (stageAll batch t outputs).tree := by
  induction outputs generalizing batch t fault with
  | nil => cases failed
  | cons output rest ih =>
    rw [stageAll] at failed ⊢
    cases first : (batch.stage t output.target output.filling).result with
    | error cause =>
      obtain ⟨kept, same, -⟩ := Batch.stage_error first
      simp only [kept]
      exact (Batch.clears_drop batch _).of_agrees same
    | ok rows =>
      obtain ⟨s, -, grown, -, clears, tree', held'⟩ := Batch.stage_ok tree held first
      simp only [first, grown] at failed ⊢
      cases later : (stageAll (batch ++ [s]) (batch.stage t output.target output.filling).tree
          rest).result with
      | error cause => exact (ih tree' held' later).of_append clears
      | ok more =>
        rw [later] at failed
        cases failed

/-- Outputs that could be staged are a batch that holds their contents, and whose
temporaries are all that is new. -/
theorem stageAll_ok {outputs : List Output} {rows : List Nat} (tree : t.IsTree)
    (held : batch.Held t) (done : (stageAll batch t outputs).result = .ok rows) :
    ∃ added : Batch, (stageAll batch t outputs).batch = batch ++ added ∧
      List.Forall₂ (fun o s => o.StagedAs (stageAll batch t outputs).tree s) outputs added ∧
      added.Clears (stageAll batch t outputs).tree t ∧
      (stageAll batch t outputs).tree.IsTree ∧
      (batch ++ added).Held (stageAll batch t outputs).tree := by
  induction outputs generalizing batch t rows with
  | nil => exact ⟨[], (List.append_nil batch).symm, .nil, Batch.clears_nil t, tree, by
      rw [List.append_nil]
      exact held⟩
  | cons output rest ih =>
    rw [stageAll] at done ⊢
    cases first : (batch.stage t output.target output.filling).result with
    | error cause =>
      simp only [first] at done
      cases done
    | ok count =>
      obtain ⟨s, target, grown, holds, clears, tree', held'⟩ := Batch.stage_ok tree held first
      simp only [first, grown] at done ⊢
      cases later : (stageAll (batch ++ [s]) (batch.stage t output.target output.filling).tree
          rest).result with
      | error cause =>
        rw [later] at done
        cases done
      | ok more =>
        obtain ⟨added, all, staged, clears', tree'', held''⟩ := ih tree' held' later
        rw [List.append_assoc] at all held''
        exact ⟨s :: added, all, .cons ⟨target, clears'.content?_eq holds⟩ staged,
          (clears'.append clears).append_comm, tree'', held''⟩

/-- All outputs are staged exactly if each of them is filled and has a directory. -/
theorem stageAll_ok_iff {outputs : List Output} :
    (∃ rows, (stageAll batch t outputs).result = .ok rows) ↔ ∀ o ∈ outputs,
      (∃ rows, o.filling.result = .ok rows) ∧ ∃ directory, t.directoryOf o.target = .ok directory := by
  induction outputs generalizing batch t with
  | nil => exact ⟨fun _ => nofun, fun _ => ⟨[], rfl⟩⟩
  | cons output rest ih =>
    have later := @ih (batch.stage t output.target output.filling).tree
      (batch.stage t output.target output.filling).batch
    simp only [(batch.sameWays_stage t output.target output.filling).directoryOf_eq_ok_iff] at later
    rw [stageAll, List.forall_mem_cons, ← later, ← @Batch.stage_ok_iff t batch]
    cases (batch.stage t output.target output.filling).result with
    | error cause => simp
    | ok count =>
      simp only [Except.ok.injEq, exists_eq', true_and]
      cases (stageAll (batch.stage t output.target output.filling).batch
        (batch.stage t output.target output.filling).tree rest).result <;> simp [Except.map]

/-- Such a batch has the targets of the outputs. -/
theorem map_target_of_staged {outputs : List Output} {added : Batch}
    (staged : List.Forall₂ (fun o s => o.StagedAs t s) outputs added) :
    added.map Staged.target = outputs.map Output.target :=
  (map_eq_map_of_forall₂ (staged.imp fun _ _ h => h.1.symm)).symm

/-! ### Delivering -/

/-- An output that can be staged, and then moved to its path. -/
structure Output.Deliverable (o : Output) (t : FileTree) : Prop where
  filled : ∃ rows, o.filling.result = .ok rows
  staged : ∃ directory, t.directoryOf o.target = .ok directory
  admitted : t.Admits o.target

theorem Output.deliverable_of_sameWays (same : SameWays t t') {o : Output} :
    o.Deliverable t' ↔ o.Deliverable t := by
  have iff : ∀ t : FileTree, o.Deliverable t ↔ (∃ rows, o.filling.result = .ok rows) ∧
      (∃ directory, t.directoryOf o.target = .ok directory) ∧ t.Admits o.target := fun _ =>
    ⟨fun ⟨f, s, a⟩ => ⟨f, s, a⟩, fun ⟨f, s, a⟩ => ⟨f, s, a⟩⟩
  simp only [iff, same.directoryOf_eq_ok_iff, same.admits_iff]

/-- What delivered outputs leave of a tree. -/
structure Leaves (outputs : List Output) (t t' : FileTree) : Prop where
  ways : SameWays t t'
  tree : t'.IsTree
  named : ∀ place, t'.get? (.named place) =
    (t.contentsOf (outputs.map Output.content) place).getLast?.or (t.get? (.named place))
  temporaries : SameTemporaries t t'

/-- A batch of outputs that were staged holds their contents. -/
theorem holds_of_staged {outputs : List Output} {added : Batch}
    (staged : List.Forall₂ (fun o s => o.StagedAs t s) outputs added) :
    added.Holds t (outputs.map Output.content) :=
  List.forall₂_map_left_iff.mpr staged

/-- Delivering succeeds exactly if every output can be staged and moved to its
path. -/
theorem deliver_ok_iff (tree : t.IsTree) {before : List Event} {outputs : List Output}
    {report : List String → List Nat → List Event} :
    (deliver t before outputs report).result = .ok () ↔ ∀ o ∈ outputs, o.Deliverable t := by
  have stageable := @stageAll_ok_iff t [] outputs
  unfold deliver
  cases staged : (stageAll [] t outputs).result with
  | error fault =>
    simp only [staged, reduceCtorEq, exists_false, false_iff] at stageable ⊢
    exact fun all => stageable fun o mem => ⟨(all o mem).filled, (all o mem).staged⟩
  | ok rows =>
    obtain ⟨added, all, holds, clears, tree', held⟩ :=
      stageAll_ok tree (Batch.held_nil t) staged
    rw [List.nil_append] at all held
    have ready := stageable.mp ⟨rows, staged⟩
    have done_iff := (commit_holds tree' held (holds_of_staged holds)).1
    simp only [clears.sameWays.symm.admits_iff, List.forall_mem_map, Output.content] at done_iff
    simp only [staged, all]
    constructor
    · intro ended o mem
      cases done : (added.commit (stageAll [] t outputs).tree).result with
      | error fault =>
        rw [done] at ended
        cases ended
      | ok targets =>
        exact ⟨(ready o mem).1, (ready o mem).2, done_iff.mp ⟨targets, done⟩ o mem⟩
    · intro deliverable
      obtain ⟨targets, done⟩ := done_iff.mpr fun o mem => (deliverable o mem).admitted
      simp only [done]

/-- Outputs that are delivered stand at their places, the later ones over the
earlier, and all else is as it was. -/
theorem deliver_leaves (tree : t.IsTree) {before : List Event} {outputs : List Output}
    {report : List String → List Nat → List Event}
    (ended : (deliver t before outputs report).result = .ok ()) :
    Leaves outputs t (deliver t before outputs report).tree := by
  unfold deliver at ended ⊢
  cases staged : (stageAll [] t outputs).result with
  | error fault =>
    simp only [staged] at ended
    cases ended
  | ok rows =>
    obtain ⟨added, all, holds, clears, tree', held⟩ :=
      stageAll_ok tree (Batch.held_nil t) staged
    rw [List.nil_append] at all held
    simp only [staged, all] at ended ⊢
    cases done : (added.commit (stageAll [] t outputs).tree).result with
    | error fault =>
      rw [done] at ended
      cases ended
    | ok targets =>
      have ways := clears.sameWays.symm
      obtain ⟨ways', tree''⟩ := isTree_commit tree' held
      have named := ((commit_holds tree' held (holds_of_staged holds)).2 targets done).2
      exact {
        ways := ways.trans ways'
        tree := tree''
        named := fun place => by rw [named, ways.contentsOf_eq, ← clears.named]
        temporaries := fun directory serial => by
          rw [(spends_commit tree' held).2, clears.nodes] }

/-- A place that no output names is left as it was. -/
theorem Leaves.kept {outputs : List Output} {place : Place} (leaves : Leaves outputs t t')
    (unnamed : ∀ o ∈ outputs, t.filePlace? o.target ≠ some place) :
    t'.get? (.named place) = t.get? (.named place) := by
  have nothing : t.contentsOf (outputs.map Output.content) place = [] := by
    refine List.filterMap_eq_nil_iff.mpr (List.forall_mem_map.mpr fun o mem => ?_)
    exact if_neg (unnamed o mem)
  rw [leaves.named, nothing]
  rfl

/-- Delivered outputs stand at their paths, and nothing else has changed. -/
theorem Leaves.delivered {t' : FileTree} {outputs : List Output} (leaves : Leaves outputs t t')
    (admitted : ∀ o ∈ outputs, t.Admits o.target) :
    Delivered (outputs.map Output.target) t t' where
  here := leaves.ways.here
  written := by
    refine List.forall_mem_map.mpr fun o mem => ?_
    obtain ⟨place, named, -⟩ := admitted o mem
    have here := mem_contentsOf_iff.mpr ⟨o.content, List.mem_map_of_mem mem, named, rfl⟩
    have last := List.getLast?_eq_some_getLast (List.ne_nil_of_mem here)
    obtain ⟨content, -, -, file⟩ := mem_contentsOf_iff.mp (List.mem_of_getLast? last)
    refine ⟨place, content.2, named, ?_⟩
    rw [leaves.named, last, Option.some_or, ← file]
  changed a differs := by
    cases a with
    | temporary directory serial => exact absurd (leaves.temporaries directory serial) differs
    | named place =>
      by_contra unnamed
      refine differs (leaves.kept fun o mem named => unnamed ?_)
      exact ⟨o.target, List.mem_map_of_mem mem, place, named, rfl⟩

/-- Delivering outputs, of which a run has two at the most, puts all of them in
place, or leaves the tree as it was. -/
theorem deliver_tidy (tree : t.IsTree) (before : List Event) {outputs : List Output}
    {paths : List String} (named : outputs.map Output.target = paths) (few : outputs.length ≤ 2)
    (report : List String → List Nat → List Event) :
    (deliver t before outputs report).Tidy paths t where
  done ended := by
    rw [← named]
    exact (deliver_leaves tree ended).delivered fun o mem =>
      ((deliver_ok_iff tree).mp ended o mem).admitted
  failed fault failed := by
    unfold deliver at failed ⊢
    cases staged : (stageAll [] t outputs).result with
    | error cause =>
      simp only [staged]
      exact (Batch.clears_nil t).agrees (stageAll_error tree (Batch.held_nil t) staged)
    | ok rows =>
      obtain ⟨added, all, holds, clears, tree', held⟩ :=
        stageAll_ok tree (Batch.held_nil t) staged
      rw [List.nil_append] at all held
      simp only [staged, all] at failed ⊢
      rcases commit_cases tree' held with done | ⟨passed, s, later, split, stops⟩
      · simp only [done.result] at failed
        cases failed
      · obtain ⟨cause, stopped⟩ := stops.result
        simp only [stopped]
        have short : passed.length ≤ 1 := by
          have lengths := congrArg List.length (map_target_of_staged holds)
          rw [split] at lengths
          simp at lengths
          omega
        exact stops.agrees split short clears

/-- Outputs that name different files. -/
def Apart (outputs : List Output) (t : FileTree) : Prop :=
  outputs.Pairwise fun o o' => ∀ place, t.filePlace? o.target = some place →
    t.filePlace? o'.target ≠ some place

/-- Once different outputs are delivered, the path of each leads to a file with its
content. -/
theorem deliver_find (tree : t.IsTree) (before : List Event) {outputs : List Output}
    (apart : Apart outputs t) (report : List String → List Nat → List Event)
    (ended : (deliver t before outputs report).result = .ok ()) :
    ∀ o ∈ outputs, ∃ place, (deliver t before outputs report).tree.find o.target =
      .ok (place, .file o.filling.bytes) := by
  intro o mem
  have leaves := deliver_leaves tree ended
  obtain ⟨place, named, -⟩ := ((deliver_ok_iff tree).mp ended o mem).admitted
  refine ⟨place, find_of_filePlace? ((leaves.ways.filePlace?_eq _).trans named) ?_⟩
  obtain ⟨earlier, later, rfl⟩ := List.append_of_mem mem
  have last := (List.pairwise_cons.mp (List.pairwise_append.mp apart).2.1).1
  have written : (t.contentsOf (earlier.map Output.content ++ o.content ::
      later.map Output.content) place).getLast? = some (.file o.filling.bytes) :=
    getLast?_contentsOf named (List.forall_mem_map.mpr fun o' ho' => last o' ho' place named)
  rw [leaves.named, List.map_append, List.map_cons, written, Option.some_or]

/-! ### Commands -/

/-- The outputs of a merge are its table and, if one is wanted, its figure. -/
theorem mergeOutputs_targets (s : Settings) (inputs : MergeInputs) (table : ComparedTable)
    (caption outPrefix : String) (plot : Option FigureFormat) :
    (mergeOutputs s inputs table caption outPrefix plot).map Output.target =
      s!"{outPrefix}.csv" :: plot.toList.map fun format => s!"{outPrefix}.{format.extension}" := by
  cases plot <;> rfl

theorem merge_tidy (tree : t.IsTree) (s : Settings) (inputs : List String)
    (caption outPrefix : String) (plot : Option FigureFormat) :
    (merge s t inputs caption outPrefix plot).Tidy
      (s!"{outPrefix}.csv" :: plot.toList.map fun format => s!"{outPrefix}.{format.extension}")
      t := by
  unfold merge
  dsimp only
  split
  · exact stop_tidy ..
  · split
    · exact stop_tidy ..
    · next opened _ _ table _ =>
      refine deliver_tidy tree _ (mergeOutputs_targets s opened table caption outPrefix plot) ?_ _
      cases plot <;> simp [mergeOutputs]

theorem eoc_tidy (tree : t.IsTree) (s : Settings) (input output : String) :
    (eoc s t input output).Tidy [output] t := by
  unfold eoc
  dsimp only
  split
  · exact stop_tidy ..
  · refine deliver_tidy tree _ rfl ?_ _
    simp

theorem scale_tidy (tree : t.IsTree) (s : Settings) (input output column : String)
    (factor : Binary64) : (scale s t input output column factor).Tidy [output] t := by
  unfold scale
  split
  · exact stop_tidy ..
  · refine deliver_tidy tree _ rfl ?_ _
    simp

theorem withSettings_tidy {settings : Except Fault Settings} {run : Settings → Outcome}
    {paths : List String} (runs : ∀ s, (run s).Tidy paths t) :
    (withSettings t settings run).Tidy paths t := by
  cases settings with
  | error fault => exact stop_tidy ..
  | ok s => exact runs s

end Run

/-! ### Command lines -/

/-- The paths that a command writes. -/
def Command.outputs : Command → List String
  | .merge _ _ outPrefix plot noPlot _ =>
    s!"{outPrefix}.csv" :: if noPlot then [] else [s!"{outPrefix}.{plot.extension}"]
  | .eoc _ output _ => [output]
  | .scale _ output _ _ _ => [output]

/-- The paths that a command line asks to be written. -/
def outputsOf (arguments : List String) : List String :=
  match CommandLine.parse arguments with
  | .error _ => []
  | .ok invocation => invocation.command.outputs

theorem Invocation.run_tidy (tree : t.IsTree) (i : Invocation) :
    (i.run t).Tidy i.command.outputs t := by
  unfold Invocation.run
  cases i.command with
  | merge inputs caption outPrefix plot noPlot overrides =>
    refine Run.withSettings_tidy ?_
    intro s
    have tidy := Run.merge_tidy tree s inputs caption outPrefix (if noPlot then none else some plot)
    cases noPlot <;> exact tidy
  | eoc input output overrides => exact Run.withSettings_tidy fun s => Run.eoc_tidy tree s ..
  | scale input output column factor overrides =>
    exact Run.withSettings_tidy fun s => Run.scale_tidy tree s ..

/-- A command line that ends with an error leaves every file, directory and
temporary as it was. One that ends without puts a file at each of its outputs and
changes nothing else. -/
theorem run_all_or_nothing (tree : t.IsTree) (arguments : List String) :
    ((runCommandLine arguments t).exitCode ≠ 0 → Agrees t ((runCommandLine arguments t).tree t)) ∧
      ((runCommandLine arguments t).exitCode = 0 →
        Delivered (outputsOf arguments) t ((runCommandLine arguments t).tree t)) := by
  unfold runCommandLine outputsOf
  cases CommandLine.parse arguments with
  | error m => exact ⟨fun _ => .refl t, fun _ => ⟨rfl, by simp, fun a differs => absurd rfl differs⟩⟩
  | ok i =>
    have tidy := i.run_tidy tree
    simp only [Conclusion.exitCode, Conclusion.tree]
    cases result : (i.run t).result with
    | error fault => exact ⟨fun _ => tidy.failed fault result, nofun⟩
    | ok u => exact ⟨nofun, fun _ => tidy.done result⟩

/-- A directory with one table. -/
def oneTable : FileTree where
  here := []
  nodes := [(.named [], .directory), (.named ["t.csv"], .file (Text.toBytes "h,e\n1,2\n"))]
  unused := 0

/-- A table that is scaled in its own place. -/
theorem scaled_in_place :
    let arguments :=
      ["scale", "t.csv", "t.csv", "--columns-from-header", "--delimiter", ",", "--column", "e",
        "--factor", "2"]
    oneTable.IsTree ∧ (runCommandLine arguments oneTable).exitCode = 0 ∧
      Delivered ["t.csv"] oneTable ((runCommandLine arguments oneTable).tree oneTable) := by
  intro arguments
  have tree : oneTable.IsTree := isTree_of_nodes (by decide) (by decide)
  have ended : (runCommandLine arguments oneTable).exitCode = 0 := by decide +kernel
  have outputs : outputsOf arguments = ["t.csv"] := by decide +kernel
  exact ⟨tree, ended, outputs ▸ (run_all_or_nothing tree arguments).2 ended⟩

end RefinementTables
