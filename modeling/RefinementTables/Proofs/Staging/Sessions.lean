import RefinementTables.Proofs.Staging.Commit

/-!
Sequences of stagings, commits and drops.

Until a commit the outputs of a batch are temporaries and nothing else: whatever is
staged, dropped or fails to be staged, every file stays as it is.

* `Session` — what such a sequence leads to, with a log of the outputs that are
  staged.
* `temporaries_stage` — every staged output is one temporary more.
* `Session.sound` — every operation keeps what a batch and its log know of the
  tree.
* `nothing_visible_before_commit` — what is seen of a batch at every point of a
  session, and what the next operation makes of it.
-/

namespace RefinementTables

open FileTree

variable {t t' start base : FileTree} {batch : Batch} {outputs : List (String × Bytes)}

/-! ### Counting temporaries -/

namespace FileTree

/-- No entry has an address at which nothing is found. -/
theorem filter_of_absent {a : Address} (absent : t.get? a = none) :
    (t.nodes.filter fun entry => entry.1 ≠ a) = t.nodes := by
  refine List.filter_eq_self.mpr fun entry mem => decide_eq_true ?_
  exact Ne.symm (bne_iff_ne.mp (List.lookup_eq_none_iff.mp absent entry mem))

theorem Clean.of_sameTemporaries (clean : t.Clean) (same : SameTemporaries t t') : t'.Clean :=
  fun directory serial => (same directory serial).trans (clean directory serial)

theorem Clean.temporaries_eq_zero (clean : t.Clean) (place : Place) : t.temporaries place = 0 := by
  unfold temporaries
  rw [List.countP_eq_zero]
  rintro ⟨a, node⟩ mem
  cases a with
  | named place => simp
  | temporary directory serial =>
    rw [← filter_of_absent (clean directory serial), List.mem_filter] at mem
    simp at mem

/-- A new temporary counts once. -/
theorem temporaries_createTemporary (t : FileTree) (directory : Place) (bytes : Bytes) :
    (t.createTemporary directory bytes).1.temporaries [] = t.temporaries [] + 1 := by
  have nodes : (t.createTemporary directory bytes).1.nodes =
      (t.fresh directory, .file bytes) :: t.nodes := by
    conv_rhs => rw [← filter_of_absent (t.get?_fresh directory)]
    rfl
  rw [temporaries, nodes, List.countP_cons_of_pos (by simp [fresh])]
  rfl

/-- A temporary that goes as it came leaves no trace in the count. -/
theorem temporaries_erase_fresh (t : FileTree) (directory : Place) (bytes : Bytes) :
    ((t.createTemporary directory bytes).1.erase (t.fresh directory)).temporaries [] =
      t.temporaries [] := by
  have nodes : ((t.createTemporary directory bytes).1.erase (t.fresh directory)).nodes = t.nodes := by
    conv_rhs => rw [← filter_of_absent (t.get?_fresh directory)]
    rw [erase, createTemporary, set, fresh]
    simp only [List.filter_cons_of_neg, decide_not, decide_true, Bool.not_true, Bool.false_eq_true,
      not_false_eq_true, List.filter_filter, Bool.and_self, ne_eq]
  rw [temporaries, nodes, temporaries]

end FileTree

namespace Batch

/-- Staging counts one temporary more for an output that it adds to the batch, and
none for one that is refused. -/
theorem temporaries_stage {α : Type} (batch : Batch) (t : FileTree) (target : String)
    (filling : Filling α) :
    (batch.stage t target filling).tree.temporaries [] + batch.length =
      t.temporaries [] + (batch.stage t target filling).batch.length := by
  unfold stage
  cases reached : t.directoryOf target with
  | error cause => rfl
  | ok directory =>
    cases filled : filling.result with
    | error fault =>
      obtain ⟨temporary, -, -⟩ := stage_created reached filling.bytes
      have counted := temporaries_erase_fresh t directory filling.bytes
      have dropped : (⟨target, t.freshSerial⟩ : Staged).drop
          (t.createTemporary directory filling.bytes).1 =
          (t.createTemporary directory filling.bytes).1.erase (t.fresh directory) := by
        rw [Staged.drop_eq, temporary]
        rfl
      rw [← dropped] at counted
      exact congrArg (· + batch.length) counted
    | ok a =>
      simp only
      rw [temporaries_createTemporary, List.length_append, List.length_singleton, Nat.add_right_comm,
        Nat.add_assoc]

end Batch

/-! ### Sessions -/

/-- What operations on batches lead to, from a tree that is there at the start: the
tree in which the current batch was begun, the outputs that have been staged since
then, the batch, and the tree. A commit or a drop uses the batch up, and the next
one begins. -/
inductive Session (start : FileTree) :
    FileTree → List (String × Bytes) → Batch → FileTree → Prop where
  | new : Session start start [] [] start
  | staged {α : Type} {base t : FileTree} {outputs : List (String × Bytes)} {batch : Batch}
      (target : String) (filling : Filling α) {a : α} :
      Session start base outputs batch t → (batch.stage t target filling).result = .ok a →
      Session start base (outputs ++ [(target, filling.bytes)])
        (batch.stage t target filling).batch (batch.stage t target filling).tree
  | refused {α : Type} {base t : FileTree} {outputs : List (String × Bytes)} {batch : Batch}
      (target : String) (filling : Filling α) {fault : Fault} :
      Session start base outputs batch t → (batch.stage t target filling).result = .error fault →
      Session start base outputs
        (batch.stage t target filling).batch (batch.stage t target filling).tree
  | committed {base t : FileTree} {outputs : List (String × Bytes)} {batch : Batch} :
      Session start base outputs batch t →
      Session start (batch.commit t).tree [] [] (batch.commit t).tree
  | dropped {base t : FileTree} {outputs : List (String × Bytes)} {batch : Batch} :
      Session start base outputs batch t → Session start (batch.drop t) [] [] (batch.drop t)

namespace Batch

theorem Clears.sameFiles (clears : batch.Clears t t') : SameFiles t t' :=
  ⟨clears.here, clears.named⟩

theorem Clears.spends (clears : batch.Clears t t') : batch.Spends t t' :=
  fun directory serial => clears.nodes (.temporary directory serial)

theorem Clears.isTree (clears : batch.Clears t t') (tree : t.IsTree) : t'.IsTree := by
  refine ⟨fun a node there => ?_, fun directory serial => ?_⟩
  · rw [clears.sameWays.directories]
    rw [clears.nodes] at there
    split at there
    · cases there
    · exact tree.parent a node there
  · rw [clears.nodes]
    split
    · simp
    · exact tree.temporary directory serial

/-- What a later output adds to a tree leaves a batch its contents. -/
theorem Clears.holds {later : Batch} (clears : later.Clears t' t) (holds : batch.Holds t outputs) :
    batch.Holds t' outputs :=
  holds.imp fun _ _ h => ⟨h.1, clears.content?_eq h.2⟩

theorem Holds.of_agrees (same : Agrees t t') (holds : batch.Holds t outputs) :
    batch.Holds t' outputs :=
  ((clears_nil t).of_agrees same.symm).holds holds

/-- A batch that holds its outputs has a temporary for each. -/
theorem Holds.length_temporaries (holds : batch.Holds t outputs) :
    (batch.temporaries t).length = batch.length := by
  induction holds with
  | nil => rfl
  | cons first rest ih =>
    obtain ⟨a, temporary, -⟩ := Option.bind_eq_some_iff.mp first.2
    simp only [temporaries, List.filterMap_cons, temporary, List.length_cons]
    exact congrArg (· + 1) ih

/-- Staging leaves the other outputs of the batch what they hold, and every file as
it is. -/
theorem stage_keeps {α : Type} (tree : t.IsTree) (held : batch.Held t)
    (holds : batch.Holds t outputs) (target : String) (filling : Filling α) :
    SameFiles t (batch.stage t target filling).tree ∧
      batch.Holds (batch.stage t target filling).tree outputs := by
  cases result : (batch.stage t target filling).result with
  | error fault =>
    obtain ⟨-, same, -⟩ := stage_error result
    exact ⟨same.sameFiles, holds.of_agrees same⟩
  | ok a =>
    obtain ⟨s, -, -, -, clears, -⟩ := stage_ok tree held result
    exact ⟨clears.sameFiles.symm, clears.holds holds⟩

end Batch

/-- What a batch and its log know of the tree: the tree is the one in which the batch
was begun, with the batch's temporaries, and these hold the outputs of the log. -/
structure Session.Sound (start base : FileTree) (outputs : List (String × Bytes)) (batch : Batch)
    (t : FileTree) : Prop where
  clears : batch.Clears t base
  tree : t.IsTree
  held : batch.Held t
  foreign : SameTemporaries start base
  counted : t.temporaries [] = base.temporaries [] + batch.length
  holds : batch.Holds t outputs

/-- A batch that is begun knows the tree in which it is. -/
theorem Session.Sound.begin (tree : t.IsTree) (foreign : SameTemporaries start t) :
    Sound start t [] [] t where
  clears := Batch.clears_nil t
  tree := tree
  held := Batch.held_nil t
  foreign := foreign
  counted := rfl
  holds := .nil

/-- The temporaries of the tree are those that were there at the start, and those of
the batch. -/
theorem Session.Sound.spends (sound : Sound start base outputs batch t) : batch.Spends t start := by
  intro directory serial
  rw [← sound.foreign, sound.clears.nodes]

/-- A tree that has lost the temporaries of the batch has those of the start. -/
theorem Session.Sound.sameTemporaries (sound : Sound start base outputs batch t)
    (spent : batch.Spends t t') : SameTemporaries start t' := by
  intro directory serial
  rw [spent, sound.spends]

/-- Every operation keeps what a batch and its log know of the tree. -/
theorem Session.sound (session : Session start base outputs batch t) (tree : start.IsTree) :
    Sound start base outputs batch t := by
  induction session with
  | new => exact .begin tree fun _ _ => rfl
  | @staged α base t outputs batch target filling a _ done ih =>
    obtain ⟨s, target_eq, grown, content, clears, tree', held'⟩ :=
      Batch.stage_ok ih.tree ih.held done
    have counted := batch.temporaries_stage t target filling
    rw [ih.counted] at counted
    rw [grown] at counted ⊢
    exact {
      clears := (clears.append ih.clears).append_comm
      tree := tree'
      held := held'
      foreign := ih.foreign
      counted := by omega
      holds := List.rel_append (clears.holds ih.holds) (.cons ⟨target_eq, content⟩ .nil) }
  | @refused α base t outputs batch target filling fault _ failed ih =>
    obtain ⟨kept, same, unused⟩ := Batch.stage_error failed
    have counted := batch.temporaries_stage t target filling
    rw [ih.counted] at counted
    rw [kept] at counted ⊢
    exact {
      clears := ih.clears.of_agrees same.symm
      tree := same.isTree ih.tree
      held := ⟨ih.held.distinct, fun s hs => Nat.lt_of_lt_of_le (ih.held.issued s hs) unused⟩
      foreign := ih.foreign
      counted := by omega
      holds := ih.holds.of_agrees same }
  | committed _ ih =>
    exact .begin (isTree_commit ih.tree ih.held).2
      (ih.sameTemporaries (spends_commit ih.tree ih.held).2)
  | @dropped base t outputs batch _ ih =>
    have clears := batch.clears_drop t
    exact .begin (clears.isTree ih.tree) (ih.sameTemporaries clears.spends)

/-! ### Points of a session -/

/-- The temporaries of a batch are pairwise different. -/
theorem Batch.Held.nodup_temporaries (held : batch.Held t) : (batch.temporaries t).Nodup := by
  refine (List.pairwise_map.mp held.distinct).filterMap _ ?_
  intro p q different a first b second
  obtain ⟨directory, -, rfl⟩ := Staged.temporary?_eq_some_iff.mp first
  obtain ⟨directory', -, rfl⟩ := Staged.temporary?_eq_some_iff.mp second
  intro same
  exact different (Address.temporary.inj same).2

/-- At every point of a session, the temporaries of the tree are those of the batch,
one for each staged output, and otherwise it holds what it held when the batch was
begun; there are as many temporaries as outputs if there were none at the start.

Staging, whether it succeeds or not, and dropping change no file, and staging leaves
the earlier outputs what they hold; if it fails, there is no trace of it. A commit
is done exactly if the paths of all staged outputs admit files, and then every place
holds the last of what was staged for it, or what was there. After a commit, done or
not, and after a drop no temporary of the batch remains. -/
theorem nothing_visible_before_commit (tree : start.IsTree)
    (session : Session start base outputs batch t) :
    (start.Clean → t.temporaries [] = batch.length) ∧
    ((batch.temporaries t).length = batch.length ∧ (batch.temporaries t).Nodup ∧
      batch.Spends t start) ∧
    (SameFiles base t ∧ batch.Holds t outputs) ∧
    (∀ {α : Type} (target : String) (filling : Filling α),
      let staging := batch.stage t target filling
      SameFiles t staging.tree ∧ batch.Holds staging.tree outputs ∧
        ∀ fault, staging.result = .error fault → staging.batch = batch ∧ Agrees t staging.tree) ∧
    ((∃ targets, (batch.commit t).result = .ok targets) ↔ ∀ o ∈ outputs, base.Admits o.1) ∧
    (∀ targets, (batch.commit t).result = .ok targets → targets = outputs.map Prod.fst ∧
      ∀ place, (batch.commit t).tree.get? (.named place) =
        (base.contentsOf outputs place).getLast?.or (base.get? (.named place))) ∧
    SameFiles t (batch.drop t) ∧
    SameTemporaries start (batch.commit t).tree ∧ SameTemporaries start (batch.drop t) ∧
    (start.Clean →
      (batch.commit t).tree.temporaries [] = 0 ∧ (batch.drop t).temporaries [] = 0) := by
  have sound := session.sound tree
  have ways := sound.clears.sameWays
  have files := sound.clears.sameFiles
  have dropped := batch.clears_drop t
  have committed := sound.sameTemporaries (spends_commit sound.tree sound.held).2
  have dropped_same := sound.sameTemporaries dropped.spends
  obtain ⟨done_iff, installs⟩ := commit_holds sound.tree sound.held sound.holds
  refine ⟨fun clean => ?_, ⟨sound.holds.length_temporaries, sound.held.nodup_temporaries,
    sound.spends⟩, ⟨files.symm, sound.holds⟩, fun target filling => ?_, ?_, ?_,
    dropped.sameFiles, committed, dropped_same, fun clean =>
      ⟨(clean.of_sameTemporaries committed).temporaries_eq_zero [],
        (clean.of_sameTemporaries dropped_same).temporaries_eq_zero []⟩⟩
  · rw [sound.counted, (clean.of_sameTemporaries sound.foreign).temporaries_eq_zero, Nat.zero_add]
  · obtain ⟨same, kept⟩ := Batch.stage_keeps sound.tree sound.held sound.holds target filling
    refine ⟨same, kept, fun fault failed => ?_⟩
    obtain ⟨unchanged, agrees, -⟩ := Batch.stage_error failed
    exact ⟨unchanged, agrees⟩
  · simp only [ways.admits_iff]
    exact done_iff
  · intro targets ok
    obtain ⟨targets_eq, named⟩ := installs targets ok
    refine ⟨targets_eq, fun place => ?_⟩
    rw [named, ways.contentsOf_eq, files.named]

/-- A directory with one file. -/
def oldFile : FileTree where
  here := []
  nodes := [(.named [], .directory), (.named ["a"], .file (Text.toBytes "old"))]
  unused := 0

/-- One output is staged; the filling of the next fails on the way, and the third has
no directory. A commit installs the first. -/
theorem one_staged_two_refused :
    let whole : Filling Unit := ⟨Text.toBytes "new", .ok (), []⟩
    let broken : Filling Unit := ⟨Text.toBytes "par", .error (.emptyScheme "b"), []⟩
    let first := Batch.stage [] oldFile "a" whole
    let second := first.batch.stage first.tree "b" broken
    let third := second.batch.stage second.tree "missing/c" whole
    oldFile.IsTree ∧ Session oldFile oldFile [("a", Text.toBytes "new")] third.batch third.tree ∧
      third.batch.length = 1 ∧ third.tree.temporaries [] = 1 ∧
      third.tree.get? (.named ["a"]) = some (.file (Text.toBytes "old")) ∧
      (third.batch.commit third.tree).result = .ok ["a"] ∧
      (third.batch.commit third.tree).tree.get? (.named ["a"]) =
        some (.file (Text.toBytes "new")) ∧
      (third.batch.commit third.tree).tree.temporaries [] = 0 := by
  intro whole broken first second third
  have tree : oldFile.IsTree := isTree_of_nodes (by decide) (by decide)
  have clean : oldFile.Clean := fun _ _ => rfl
  have staged : first.result = .ok () := by decide +kernel
  have stopped : second.result = .error (.emptyScheme "b") := by decide +kernel
  have astray : third.result = .error (.io (.staging "missing/c" .noEntry)) := by decide +kernel
  have session : Session oldFile oldFile [("a", Text.toBytes "new")] third.batch third.tree :=
    ((Session.new.staged "a" whole staged).refused "b" broken stopped).refused "missing/c" whole
      astray
  have one : third.batch.length = 1 := by decide +kernel
  have done : (third.batch.commit third.tree).result = .ok ["a"] := by decide +kernel
  obtain ⟨counted, -, ⟨files, -⟩, -, -, installs, -, -, -, left⟩ :=
    nothing_visible_before_commit tree session
  refine ⟨tree, session, one, one ▸ counted clean, files.named ["a"], done, ?_, (left clean).1⟩
  exact ((installs _ done).2 ["a"]).trans (by decide +kernel)

end RefinementTables
