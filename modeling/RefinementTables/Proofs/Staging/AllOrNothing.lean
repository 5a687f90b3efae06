import RefinementTables.Proofs.Staging.Commit

/-!
What a commit leaves on disk.

* `commit_all_or_nothing` — a batch whose targets are different files is installed
  as a whole, or the tree is what it was before, and no temporary of the batch
  remains.
* `commit_target` — with targets that are staged more than once, a commit that is
  done leaves the last of what was staged, while one that fails leaves the last
  but one of what it had moved there. `target_not_put_back` is a batch for which
  this is not what was there before.
-/

namespace RefinementTables

open FileTree

variable {t : FileTree} {s : Staged} {batch : Batch} {place : Place} {node : Node}

/-! ### Different targets -/

/-- A commit of outputs for different files installs all of them and changes
nothing else, or it leaves every file and directory as it was; it does the first
exactly if each of them could be installed alone. In both cases there is no
warning, and the temporaries of the batch are gone. If there were no others, as
after staging (`StagedFrom.ownsAll`), none remains. -/
theorem commit_all_or_nothing (tree : t.IsTree) (held : batch.Held t) (apart : batch.Apart t) :
    ((∃ targets, (batch.commit t).result = .ok targets) ↔
      ∀ s ∈ batch, (s.write? t).isSome) ∧
    (∀ targets, (batch.commit t).result = .ok targets →
      targets = batch.map Staged.target ∧
      (∀ s ∈ batch, ∃ place bytes, t.filePlace? s.target = some place ∧
        s.content? t = some (.file bytes) ∧
        (batch.commit t).tree.get? (.named place) = some (.file bytes)) ∧
      ∀ place, (∀ s ∈ batch, t.filePlace? s.target ≠ some place) →
        (batch.commit t).tree.get? (.named place) = t.get? (.named place)) ∧
    (∀ fault, (batch.commit t).result = .error fault →
      ∀ place, (batch.commit t).tree.get? (.named place) = t.get? (.named place)) ∧
    (batch.commit t).tree.here = t.here ∧
    (batch.commit t).events = [] ∧
    batch.Spends t (batch.commit t).tree ∧
    (batch.OwnsAll t →
      ∀ directory serial, (batch.commit t).tree.get? (.temporary directory serial) = none) := by
  rcases commit_cases tree held with done | ⟨passed, s, later, rfl, stops⟩
  · refine ⟨⟨fun _ => done.ready, fun _ => ⟨_, done.result⟩⟩, ?_, ?_, done.here, done.events,
      done.temporary, done.temporary.none_left⟩
    · intro targets ok
      rw [done.result] at ok
      cases ok
      refine ⟨rfl, ?_, ?_⟩
      · intro s hs
        obtain ⟨⟨place, node⟩, written⟩ := Option.isSome_iff_exists.mp (done.ready s hs)
        obtain ⟨bytes, rfl⟩ := Staged.exists_bytes tree written
        have named := Staged.filePlace?_of_write? written
        obtain ⟨earlier, later, rfl⟩ := List.append_of_mem hs
        refine ⟨place, bytes, named, Staged.content?_of_write? written, ?_⟩
        rw [done.named, Batch.contentAfter,
          Batch.getLast?_contents written (apart.later named), Option.some_or]
      · intro place unnamed
        rw [done.named, Batch.contentAfter, Batch.contents_eq_nil unnamed]
        rfl
    · intro fault error
      rw [done.result] at error
      cases error
  · obtain ⟨cause, error⟩ := stops.result
    refine ⟨⟨?_, ?_⟩, ?_, ?_, stops.here, stops.events, stops.temporary,
      stops.temporary.none_left⟩
    · rintro ⟨targets, ok⟩
      rw [error] at ok
      cases ok
    · intro ready
      have writes := ready s (by simp)
      rw [stops.refused] at writes
      cases writes
    · intro targets ok
      rw [error] at ok
      cases ok
    · intro fault _ place
      have once := apart.of_append.contents_length_le place
      exact (stops.put_back_iff place).mpr (.inl (Nat.lt_succ_of_le once))

/-- A directory with a file `a` and a directory `d`, and three temporaries. -/
def sampleTree : FileTree where
  here := []
  nodes := [
    (.named [], .directory),
    (.named ["a"], .file (Text.toBytes "old")),
    (.named ["d"], .directory),
    (.temporary [] 0, .file (Text.toBytes "1")),
    (.temporary [] 1, .file (Text.toBytes "2")),
    (.temporary [] 2, .file (Text.toBytes "3"))]
  unused := 3

theorem isTree_sampleTree : sampleTree.IsTree :=
  isTree_of_nodes (by decide) (by decide)

/-- A file is replaced, the next output is refused by a directory, and the file is
put back. -/
theorem replaced_and_put_back :
    let batch : Batch := [⟨"a", 0⟩, ⟨"d", 2⟩]
    sampleTree.IsTree ∧ batch.Held sampleTree ∧ batch.Apart sampleTree ∧
      (batch.commit sampleTree).result = .error (.io (.install "d" .isDirectory)) ∧
      ∀ place, (batch.commit sampleTree).tree.get? (.named place) = sampleTree.get? (.named place) := by
  intro batch
  have held : batch.Held sampleTree := ⟨by decide, by decide⟩
  have apart : batch.Apart sampleTree := by
    have first : sampleTree.filePlace? "a" = some ["a"] := by decide
    have second : sampleTree.filePlace? "d" = some ["d"] := by decide
    refine List.pairwise_pair.mpr ?_
    intro place named other
    rw [first] at named
    rw [second, ← named] at other
    exact absurd other (by decide)
  have refused : (batch.commit sampleTree).result = .error (.io (.install "d" .isDirectory)) := by rfl
  exact ⟨isTree_sampleTree, held, apart, refused,
    (commit_all_or_nothing isTree_sampleTree held apart).2.2.1 _ refused⟩

/-! ### Targets staged more than once -/

/-- A commit leaves, at a place that was staged any number of times, the last of
what was staged for it. One that is refused at an output leaves the last but one
of what had been moved there, so that the place is put back the way it was exactly
when that is what was there before, or when fewer than two were moved. -/
theorem commit_target (tree : t.IsTree) (held : batch.Held t) (place : Place) :
    (∀ targets, (batch.commit t).result = .ok targets → ∀ earlier s later,
      batch = earlier ++ s :: later → t.filePlace? s.target = some place →
      (∀ q ∈ later, t.filePlace? q.target ≠ some place) →
      ∃ bytes, s.content? t = some (.file bytes) ∧
        (batch.commit t).tree.get? (.named place) = some (.file bytes)) ∧
    ∀ fault, (batch.commit t).result = .error fault →
      ∃ (passed : Batch) (s : Staged) (later : Batch), batch = passed ++ s :: later ∧
        (∃ cause, fault = .io (.install s.target cause)) ∧
        (∀ p ∈ passed, (p.write? t).isSome) ∧ s.write? t = none ∧
        (batch.commit t).tree.get? (.named place) =
          (passed.contents t place).dropLast.getLast?.or (t.get? (.named place)) ∧
        ((batch.commit t).tree.get? (.named place) = t.get? (.named place) ↔
          (passed.contents t place).length < 2 ∨
          (passed.contents t place).dropLast.getLast? = t.get? (.named place)) := by
  rcases commit_cases tree held with done | ⟨passed, s, later, rfl, stops⟩
  · constructor
    · intro targets _ earlier s later split named last
      obtain ⟨⟨place', node⟩, written⟩ :=
        Option.isSome_iff_exists.mp (done.ready s (split ▸ List.mem_append_right _ (by simp)))
      have same := Staged.filePlace?_of_write? written
      rw [named] at same
      cases same
      obtain ⟨bytes, rfl⟩ := Staged.exists_bytes tree written
      refine ⟨bytes, Staged.content?_of_write? written, ?_⟩
      rw [done.named, Batch.contentAfter, split, Batch.getLast?_contents written last,
        Option.some_or]
    · intro fault error
      rw [done.result] at error
      cases error
  · constructor
    · intro targets ok
      obtain ⟨cause, error⟩ := stops.result
      rw [error] at ok
      cases ok
    · intro fault error
      obtain ⟨cause, error'⟩ := stops.result
      rw [error'] at error
      cases error
      exact ⟨passed, s, later, rfl, ⟨cause, rfl⟩, stops.ready, stops.refused, stops.named place,
        stops.put_back_iff place⟩

/-- A file that is staged twice is not put back: it holds the first of what was
staged for it. -/
theorem target_not_put_back :
    let batch : Batch := [⟨"a", 0⟩, ⟨"a", 1⟩, ⟨"d", 2⟩]
    sampleTree.IsTree ∧ batch.Held sampleTree ∧
      sampleTree.get? (.named ["a"]) = some (.file (Text.toBytes "old")) ∧
      (batch.commit sampleTree).result = .error (.io (.install "d" .isDirectory)) ∧
      (batch.commit sampleTree).tree.get? (.named ["a"]) = some (.file (Text.toBytes "1")) :=
  ⟨isTree_sampleTree, ⟨by decide, by decide⟩, by rfl, by rfl, by rfl⟩

/-- A file that is staged twice holds the second content when all goes well. -/
theorem second_content_stays :
    let batch : Batch := [⟨"a", 0⟩, ⟨"a", 1⟩]
    sampleTree.IsTree ∧ batch.Held sampleTree ∧
      (batch.commit sampleTree).result = .ok ["a", "a"] ∧
      ∃ bytes, Staged.content? ⟨"a", 1⟩ sampleTree = some (.file bytes) ∧
        (batch.commit sampleTree).tree.get? (.named ["a"]) = some (.file bytes) := by
  intro batch
  have held : batch.Held sampleTree := ⟨by decide, by decide⟩
  have done : (batch.commit sampleTree).result = .ok ["a", "a"] := by rfl
  exact ⟨isTree_sampleTree, held, done,
    (commit_target isTree_sampleTree held ["a"]).1 _ done [⟨"a", 0⟩] ⟨"a", 1⟩ [] rfl (by decide)
      (by simp)⟩

end RefinementTables
