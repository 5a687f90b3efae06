import RefinementTables.Proofs.Staging.Log

/-!
A whole commit.

When a move is refused, the moves before it are undone in the order in which they
were made, and this brings back, at every place, what the last of them replaced
(`undone`). That is what was there before the commit where at most one output
was moved; where several were, it is the last but one of them.

* `commit_cases` — a commit installs everything, or it stops at the first output
  that cannot be installed and undoes what came before.
* `commit_holds` — a commit of given outputs is done exactly if their paths admit
  files, and every place then holds the last of what they put there.
* `isTree_commit` — a commit keeps the ways of a tree and leaves a tree.
-/

namespace RefinementTables

open FileTree Move

variable {before now t : FileTree} {log : List Move} {s : Staged} {rest batch : Batch}

/-! ### Undoing -/

/-- What undoing a log makes of the tree after it: every place holds what the
last move onto it replaced, and nothing is kept aside. -/
structure Undone (before now : FileTree) (log : List Move) (undone : FileTree) : Prop where
  ways : SameWays now undone
  tree : undone.IsTree
  named : ∀ place, undone.get? (.named place) =
    if (outputs log).contents before place = [] then now.get? (.named place)
    else ((outputs log).contents before place).dropLast.getLast?.or (before.get? (.named place))
  temporary : ∀ directory serial, undone.get? (.temporary directory serial) =
    if .temporary directory serial ∈ (kept log).map Prod.fst then none
    else now.get? (.temporary directory serial)

theorem undoAll_concat (done : List Installed) (d : Installed) (t : FileTree) :
    Installed.undoAll (done ++ [d]) t =
      ((Installed.undo (Installed.undoAll done t).1 d).1,
        (Installed.undoAll done t).2 ++ (Installed.undo (Installed.undoAll done t).1 d).2) := by
  induction done generalizing t with
  | nil => simp [Installed.undoAll]
  | cons first rest ih => simp [Installed.undoAll, ih]

/-- A place at which a batch has written holds a file. -/
theorem Progress.file_at (progress : Progress before log now) {place : Place} {node : Node}
    {p : Staged} (hp : p ∈ outputs log) (written : p.write? before = some (place, node)) :
    ∃ bytes, now.get? (.named place) = some (.file bytes) := by
  have vacant := (Staged.write?_eq_some_iff.mp written).2.1
  have mem := Batch.mem_contents_iff.mpr ⟨p, hp, written⟩
  cases there : now.get? (.named place) with
  | none =>
    rw [progress.named, Batch.contentAfter, Option.or_eq_none_iff,
      List.getLast?_eq_none_iff] at there
    rw [there.1] at mem
    cases mem
  | some node' =>
    cases node' with
    | file bytes => exact ⟨bytes, rfl⟩
    | directory =>
      rw [← progress.ways.directories, isDirectory_iff.mpr there] at vacant
      cases vacant

/-- Undoing one more move when those before it are undone. -/
theorem Undone.step {m : Move} {place : Place} {node : Node} {undone undone' : FileTree}
    (u : Undone before now log undone) (written : m.staged.write? before = some (place, node))
    (saved : m.saved.map Prod.snd = (outputs log).contentAfter before place)
    (undoes : Undoes place m.saved undone undone') : Undone before now (log ++ [m]) undone' where
  ways := u.ways.trans undoes.ways
  tree := undoes.tree
  named other := by
    rw [undoes.named, outputs_concat]
    by_cases same : other = place
    · subst same
      rw [if_pos rfl, Batch.contents_concat_same written, if_neg (by simp),
        List.dropLast_concat, saved]
      rfl
    · rw [if_neg same, Batch.contents_concat_other written (Ne.symm same), u.named]
  temporary directory serial := by
    rw [undoes.temporary, u.temporary]
    simp only [mem_kept_concat_iff]
    by_cases own : m.saved.map Prod.fst = some (.temporary directory serial)
    · rw [if_pos own, if_pos (.inr own)]
    · simp only [own, if_false, or_false]

/-- Undoing the moves of a log, in the order in which they were made. -/
theorem undone {before now : FileTree} {log : List Move} (ways : SameWays before now)
    (tree : now.IsTree) (recorded : Recorded before log)
    (held : ∀ k ∈ kept log, now.get? k.1 = some k.2 ∧
      ∃ directory serial, k.1 = .temporary directory serial)
    (distinct : ((kept log).map Prod.fst).Nodup)
    (file : ∀ p ∈ outputs log, ∀ place node, p.write? before = some (place, node) →
      ∃ bytes, now.get? (.named place) = some (.file bytes)) :
    (Installed.undoAll (log.map record) now).2 = [] ∧
      Undone before now log (Installed.undoAll (log.map record) now).1 := by
  induction recorded with
  | nil =>
    exact ⟨rfl, .refl now, tree, fun place => rfl, fun directory serial => rfl⟩
  | @snoc log m place node recorded written saved ih =>
    rw [kept_concat] at held distinct
    rw [outputs_concat] at file
    rw [List.map_append, List.nodup_append] at distinct
    obtain ⟨quiet, u⟩ := ih (fun k hk => held k (List.mem_append_left _ hk)) distinct.1
      (fun p hp => file p (List.mem_append_left _ hp))
    obtain ⟨named, vacant, -⟩ := Staged.write?_eq_some_iff.mp written
    have same := ways.trans u.ways
    have named' := (same.filePlace?_eq m.staged.target).trans named
    have vacant' := (same.directories place).trans vacant
    rw [List.map_append, List.map_singleton, undoAll_concat, quiet, List.nil_append]
    cases kept_m : m.saved with
    | none =>
      -- Nothing was there, so nothing has been written there before either.
      have absent := saved.symm
      rw [kept_m, Option.map_none, Batch.contentAfter, Option.or_eq_none_iff,
        List.getLast?_eq_none_iff] at absent
      obtain ⟨bytes, there⟩ := file m.staged (by simp) place node written
      have there' : (Installed.undoAll (log.map record) now).1.get? (.named place) =
          some (.file bytes) := by
        rw [u.named, if_pos absent.1, there]
      obtain ⟨quiet', undoes⟩ := undoes_remove u.tree named' there'
      rw [record, kept_m]
      exact ⟨quiet', u.step written saved (kept_m.symm ▸ undoes)⟩
    | some k =>
      obtain ⟨there, directory, serial, address⟩ := held k (by simp [kept_m])
      obtain ⟨a, saved_node⟩ := k
      cases address
      have unkept : .temporary directory serial ∉ (kept log).map Prod.fst := fun h =>
        distinct.2.2 _ h _ (by simp [kept_m]) rfl
      have there' : (Installed.undoAll (log.map record) now).1.get? (.temporary directory serial) =
          some saved_node := by
        rw [u.temporary, if_neg unkept, there]
      obtain ⟨quiet', undoes⟩ := undoes_restore u.tree named' vacant' there'
      rw [record, kept_m]
      exact ⟨quiet', u.step written saved (kept_m.symm ▸ undoes)⟩

/-! ### The files that were moved aside -/

/-- A commit that is done erases what its moves saved, and nothing else. -/
theorem get?_discard (log : List Move) (t : FileTree) (a : Address) :
    (Installed.discard (log.map record) t).get? a =
      if a ∈ (kept log).map Prod.fst then none else t.get? a := by
  induction log generalizing t with
  | nil => rfl
  | cons m rest ih =>
    rw [List.map_cons, Installed.discard, List.foldl_cons]
    refine (ih _).trans ?_
    cases h : m.saved with
    | none =>
      have unkept : kept (m :: rest) = kept rest := List.filterMap_cons_none h
      rw [unkept, record, h]
      rfl
    | some k =>
      have first : kept (m :: rest) = k :: kept rest := List.filterMap_cons_some h
      simp only [record, first, h, Option.map_some, Option.elim_some, get?_erase, List.map_cons,
        List.mem_cons]
      by_cases own : a = k.1
      · simp [own]
      · simp only [own, if_false, false_or]

theorem here_discard (log : List Move) (t : FileTree) :
    (Installed.discard (log.map record) t).here = t.here := by
  induction log generalizing t with
  | nil => rfl
  | cons m rest ih =>
    rw [List.map_cons, Installed.discard, List.foldl_cons]
    refine (ih _).trans ?_
    cases h : m.saved <;> simp [record, h, erase]

/-! ### The commit -/

/-- A commit that installed a batch: every place holds the last of what was staged
for it, and the temporaries of the batch are gone. -/
structure Committed.IsDone (c : Committed) (batch : Batch) (t : FileTree) : Prop where
  result : c.result = .ok (batch.map Staged.target)
  events : c.events = []
  here : c.tree.here = t.here
  ready : ∀ s ∈ batch, (s.write? t).isSome
  named : ∀ place, c.tree.get? (.named place) = batch.contentAfter t place
  temporary : batch.Spends t c.tree

/-- A commit that was refused at an output, after some had passed: every place
holds the last but one of what had been moved there, or what was there before,
and the temporaries of the batch are gone. -/
structure Committed.StopsAt (c : Committed) (passed : Batch) (s : Staged) (later : Batch)
    (t : FileTree) : Prop where
  result : ∃ cause, c.result = .error (.io (.install s.target cause))
  events : c.events = []
  here : c.tree.here = t.here
  ready : ∀ p ∈ passed, (p.write? t).isSome
  refused : s.write? t = none
  named : ∀ place, c.tree.get? (.named place) =
    (passed.contents t place).dropLast.getLast?.or (t.get? (.named place))
  temporary : Batch.Spends (passed ++ s :: later) t c.tree

/-- What had been moved to a place is put back exactly if it was moved there once
at the most, or if the last but one is what was there. -/
theorem Committed.StopsAt.put_back_iff {c : Committed} {passed later : Batch}
    (stops : c.StopsAt passed s later t) (place : Place) :
    c.tree.get? (.named place) = t.get? (.named place) ↔
      (passed.contents t place).length < 2 ∨
      (passed.contents t place).dropLast.getLast? = t.get? (.named place) := by
  rw [stops.named]
  exact Batch.last_but_one_or_eq_iff _ _

/-- A commit goes on after a move that succeeds. -/
theorem install_moved {done : List Installed}
    (installed : s.install (now.moveAside s.target).1 = .ok t) :
    Batch.install done (s :: rest) now =
      Batch.install (done ++ [⟨s.target, (now.moveAside s.target).2⟩]) rest t := by
  rw [Batch.install]
  simp only [installed]

/-- A commit ends with a move that is refused, and undoes the moves before it. -/
theorem install_refused {done : List Installed} {cause : SystemFault}
    (failed : s.install (now.moveAside s.target).1 = .error cause) :
    Batch.install done (s :: rest) now =
      ⟨.error (.io (.install s.target cause)),
        Batch.drop (s :: rest) (Installed.undoAll done (putBack now s.target).1).1,
        (putBack now s.target).2 ++ (Installed.undoAll done (putBack now s.target).1).2⟩ := by
  rw [Batch.install, putBack]
  revert failed
  rcases now.moveAside s.target with ⟨aside, previous⟩
  intro failed
  simp only [failed]
  cases previous <;> rfl

/-- What is kept aside was not there before the commit. -/
theorem Progress.kept_absent (progress : Progress before log now) {a : Address}
    (h : a ∈ (kept log).map Prod.fst) : before.get? a = none := by
  obtain ⟨k, hk, rfl⟩ := List.mem_map.mp h
  obtain ⟨_, _, -, -, -, absent⟩ := progress.kept_new k hk
  exact absent

/-- A commit with nothing left to move is done. -/
theorem Progress.isDone (progress : Progress before log now)
    (ready : ∀ p ∈ outputs log, (p.write? before).isSome) :
    (Batch.install (log.map record) [] now).IsDone (outputs log) before where
  result := by simp [Batch.install, outputs, record, Function.comp_def]
  events := rfl
  here := (here_discard log now).trans progress.ways.here
  ready := ready
  named place := by
    refine (get?_discard log now _).trans ?_
    rw [if_neg, progress.named]
    intro h
    obtain ⟨k, hk, address⟩ := List.mem_map.mp h
    obtain ⟨_, _, temporary, -⟩ := progress.kept_new k hk
    rw [temporary] at address
    cases address
  temporary directory serial := by
    refine (get?_discard log now _).trans ?_
    by_cases h : .temporary directory serial ∈ (kept log).map Prod.fst
    · simp [if_pos h, progress.kept_absent h]
    · rw [if_neg h, progress.others directory serial h]

/-- Undoing the moves so far, from a tree that agrees with the one they made. -/
theorem Progress.undone (progress : Progress before log now) (same : Agrees now t) :
    (Installed.undoAll (log.map record) t).2 = [] ∧
      Undone before t log (Installed.undoAll (log.map record) t).1 := by
  refine RefinementTables.undone (progress.ways.trans same.sameWays) (same.isTree progress.tree)
    progress.recorded (fun k hk => ?_) progress.kept_distinct fun p hp place node written => ?_
  · obtain ⟨directory, serial, address, -⟩ := progress.kept_new k hk
    exact ⟨(same.nodes k.1).trans (progress.kept_held k hk), directory, serial, address⟩
  · obtain ⟨bytes, there⟩ := progress.file_at hp written
    exact ⟨bytes, (same.nodes _).trans there⟩

/-- A commit whose next output cannot be installed stops there. -/
theorem Progress.stopsAt (progress : Progress before log now)
    (held : (outputs log ++ s :: rest).Held before)
    (ready : ∀ p ∈ outputs log, (p.write? before).isSome) (refused : s.write? before = none) :
    (Batch.install (log.map record) (s :: rest) now).StopsAt (outputs log) s rest before := by
  have issued : s.serial < now.unused :=
    Nat.lt_of_lt_of_le (held.issued s (by simp)) progress.unused
  obtain ⟨cause, failed⟩ :=
    install_moveAside_error progress.tree issued ((progress.write?_eq held).trans refused)
  obtain ⟨quiet, same⟩ := agrees_putBack progress.tree s.target
  obtain ⟨quiet', u⟩ := progress.undone same
  have ways := (progress.ways.trans same.sameWays).trans u.ways
  have clears := Batch.clears_drop (s :: rest)
    (Installed.undoAll (log.map record) (putBack now s.target).1).1
  rw [install_refused failed]
  exact {
    result := ⟨cause, rfl⟩
    events := by rw [quiet, quiet', List.append_nil]
    here := clears.here.trans ways.here
    ready := ready
    refused := refused
    named := by
      intro place
      rw [clears.named, u.named, same.nodes, progress.named]
      by_cases empty : (outputs log).contents before place = []
      · simp [Batch.contentAfter, empty]
      · rw [if_neg empty]
    temporary := by
      intro directory serial
      rw [clears.nodes, Batch.temporaries_of_sameWays ways, u.temporary, same.nodes,
        Batch.temporaries_append]
      by_cases h : .temporary directory serial ∈ (kept log).map Prod.fst
      · simp [if_pos h, progress.kept_absent h]
      · rw [if_neg h, progress.others directory serial h]
        by_cases first : .temporary directory serial ∈ (outputs log).temporaries before <;>
          simp [first] }

/-- What a commit that has come some way makes of the rest. -/
theorem Progress.cases (progress : Progress before log now)
    (held : (outputs log ++ rest).Held before)
    (ready : ∀ p ∈ outputs log, (p.write? before).isSome) :
    (Batch.install (log.map record) rest now).IsDone (outputs log ++ rest) before ∨
      ∃ passed s later, outputs log ++ rest = passed ++ s :: later ∧
        (Batch.install (log.map record) rest now).StopsAt passed s later before := by
  induction rest generalizing log now with
  | nil =>
    rw [List.append_nil]
    exact .inl (progress.isDone ready)
  | cons s rest ih =>
    cases written : s.write? before with
    | none => exact .inr ⟨_, s, rest, rfl, progress.stopsAt held ready written⟩
    | some w =>
      obtain ⟨saved, t, aside, installed, moves⟩ :=
        exists_moves progress.tree ((progress.write?_eq held).trans written)
      have split : outputs log ++ s :: rest = outputs (log ++ [⟨s, saved⟩]) ++ rest := by
        rw [outputs_concat, List.append_assoc]
        rfl
      have moved : log.map record ++ [⟨s.target, saved.map Prod.fst⟩] =
          (log ++ [Move.mk s saved]).map record := by
        rw [List.map_append]
        rfl
      rw [install_moved installed, aside, moved, split]
      refine ih (progress.step held written moves) (split ▸ held) ?_
      intro p hp
      rw [outputs_concat] at hp
      rcases List.mem_append.mp hp with hp | hp
      · exact ready p hp
      · rw [List.mem_singleton.mp hp, written]
        rfl

/-- A commit installs everything, or it stops at the first output that cannot be
installed. -/
theorem commit_cases (tree : t.IsTree) (held : batch.Held t) :
    (batch.commit t).IsDone batch t ∨
      ∃ passed s later, batch = passed ++ s :: later ∧
        (batch.commit t).StopsAt passed s later t :=
  (progress_nil tree).cases held (by simp [outputs])

/-- A commit of given outputs is done exactly if their paths admit files. -/
theorem commit_holds {outputs : List (String × Bytes)} (tree : t.IsTree) (held : batch.Held t)
    (holds : batch.Holds t outputs) :
    ((∃ targets, (batch.commit t).result = .ok targets) ↔ ∀ o ∈ outputs, t.Admits o.1) ∧
    ∀ targets, (batch.commit t).result = .ok targets →
      targets = outputs.map Prod.fst ∧ ∀ place, (batch.commit t).tree.get? (.named place) =
        (t.contentsOf outputs place).getLast?.or (t.get? (.named place)) := by
  rcases commit_cases tree held with done | ⟨passed, s, later, rfl, stops⟩
  · have ready := holds.ready_iff.mp done.ready
    refine ⟨⟨fun _ => ready, fun _ => ⟨_, done.result⟩⟩, ?_⟩
    intro targets ok
    rw [done.result] at ok
    cases ok
    refine ⟨holds.targets, ?_⟩
    intro place
    rw [done.named, Batch.contentAfter, holds.contents_eq ready]
  · obtain ⟨cause, failed⟩ := stops.result
    refine ⟨⟨?_, ?_⟩, ?_⟩
    · rintro ⟨targets, ok⟩
      rw [failed] at ok
      cases ok
    · intro ready
      have writes := holds.ready_iff.mpr ready s (by simp)
      rw [stops.refused] at writes
      cases writes
    · intro targets ok
      rw [failed] at ok
      cases ok

/-! ### The tree after a commit -/

/-- What stands at a place after a commit was there before, or is what one of the
outputs was to write there. -/
theorem named_commit (tree : t.IsTree) (held : batch.Held t) (place : Place) :
    (batch.commit t).tree.get? (.named place) = t.get? (.named place) ∨
      ∃ s ∈ batch, ∃ node, s.write? t = some (place, node) ∧
        (batch.commit t).tree.get? (.named place) = some node := by
  rcases commit_cases tree held with done | ⟨passed, s, later, rfl, stops⟩
  · rw [done.named, Batch.contentAfter]
    cases last : (batch.contents t place).getLast? with
    | none => exact .inl rfl
    | some node =>
      obtain ⟨s, hs, written⟩ := Batch.mem_contents_iff.mp (List.mem_of_getLast? last)
      exact .inr ⟨s, hs, node, written, rfl⟩
  · rw [stops.named]
    cases last : (passed.contents t place).dropLast.getLast? with
    | none => exact .inl rfl
    | some node =>
      have mem := List.dropLast_subset _ (List.mem_of_getLast? last)
      obtain ⟨s', hs, written⟩ := Batch.mem_contents_iff.mp mem
      exact .inr ⟨s', List.mem_append_left _ hs, node, written, rfl⟩

/-- A commit, done or not, takes the temporaries of its batch away and no others,
and starts no path elsewhere. -/
theorem spends_commit (tree : t.IsTree) (held : batch.Held t) :
    (batch.commit t).tree.here = t.here ∧ batch.Spends t (batch.commit t).tree := by
  rcases commit_cases tree held with done | ⟨passed, s, later, rfl, stops⟩
  · exact ⟨done.here, done.temporary⟩
  · exact ⟨stops.here, stops.temporary⟩

/-- A commit puts files where no directories were, and so keeps the ways of a tree
and leaves a tree. -/
theorem isTree_commit (tree : t.IsTree) (held : batch.Held t) :
    SameWays t (batch.commit t).tree ∧ (batch.commit t).tree.IsTree := by
  obtain ⟨here, spends⟩ := spends_commit tree held
  have named := named_commit tree held
  have same : SameWays t (batch.commit t).tree := by
    refine .of_named here fun place => ?_
    rcases named place with kept | ⟨s, -, node, written, there⟩
    · rw [kept]
    · obtain ⟨bytes, rfl⟩ := Staged.exists_bytes tree written
      have vacant := (Staged.write?_eq_some_iff.mp written).2.1
      rw [there, ← isDirectory_iff, vacant]
      simp
  refine ⟨same, ?_, ?_⟩
  · intro a node there
    rw [same.directories]
    cases a with
    | named place =>
      rcases named place with kept | ⟨s, -, node', written, -⟩
      · exact tree.parent _ node (kept ▸ there)
      · exact isDirectory_dropLast_of_filePlace? (Staged.filePlace?_of_write? written)
    | temporary directory serial =>
      rw [spends] at there
      split at there
      · cases there
      · exact tree.parent _ node there
  · intro directory serial
    rw [spends]
    split
    · simp
    · exact tree.temporary directory serial

end RefinementTables
