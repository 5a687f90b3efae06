import RefinementTables.Proofs.Staging.Temporaries

/-!
What a batch writes at a place.

* `contentAfter` — once a batch is installed, the last of what was staged for a
  place stands there (`getLast?_contents`).
* `Apart.contents_length_le` — if its targets are different files, it writes once
  at a place at the most.
* `Holds.ready_iff`, `Holds.contents_eq` — a batch that holds given outputs can be
  installed if their paths admit files, and writes what the outputs hold.
-/

namespace RefinementTables

/-! ### Outputs of a tree -/

namespace FileTree

/-- A path that names a file, whether it is there or not, and no directory. -/
def Admits (t : FileTree) (path : String) : Prop :=
  ∃ place, t.filePlace? path = some place ∧ t.isDirectory place = false

/-- What outputs, given by their paths and bytes, put at a place, in their
order. -/
def contentsOf (t : FileTree) (outputs : List (String × Bytes)) (place : Place) : List Node :=
  outputs.filterMap fun o => if t.filePlace? o.1 = some place then some (.file o.2) else none

theorem mem_contentsOf_iff {t : FileTree} {outputs : List (String × Bytes)} {place : Place}
    {node : Node} :
    node ∈ t.contentsOf outputs place ↔
      ∃ o ∈ outputs, t.filePlace? o.1 = some place ∧ .file o.2 = node := by
  simp only [contentsOf, List.mem_filterMap, Option.ite_none_right_eq_some, Option.some.injEq]

/-- Outputs put nothing at a place that none of them names. -/
theorem contentsOf_eq_nil {t : FileTree} {outputs : List (String × Bytes)} {place : Place}
    (unnamed : ∀ o ∈ outputs, t.filePlace? o.1 ≠ some place) : t.contentsOf outputs place = [] := by
  refine List.eq_nil_iff_forall_not_mem.mpr fun node mem => ?_
  obtain ⟨o, ho, named, -⟩ := mem_contentsOf_iff.mp mem
  exact unnamed o ho named

/-- The last output for a place is the last that is put there. -/
theorem getLast?_contentsOf {t : FileTree} {earlier later : List (String × Bytes)}
    {o : String × Bytes} {place : Place} (named : t.filePlace? o.1 = some place)
    (last : ∀ o' ∈ later, t.filePlace? o'.1 ≠ some place) :
    (t.contentsOf (earlier ++ o :: later) place).getLast? = some (.file o.2) := by
  have split : t.contentsOf (earlier ++ o :: later) place =
      t.contentsOf earlier place ++ .file o.2 :: t.contentsOf later place := by
    simp [contentsOf, named]
  rw [split, contentsOf_eq_nil last, List.getLast?_concat]

theorem SameWays.admits_iff {t t' : FileTree} (same : SameWays t t') (path : String) :
    t'.Admits path ↔ t.Admits path := by
  simp only [Admits, same.filePlace?_eq, same.directories]

theorem SameWays.contentsOf_eq {t t' : FileTree} (same : SameWays t t')
    (outputs : List (String × Bytes)) (place : Place) :
    t'.contentsOf outputs place = t.contentsOf outputs place := by
  simp only [contentsOf, same.filePlace?_eq]

end FileTree

namespace Batch

variable {t : FileTree} {s : Staged} {batch : Batch} {place : Place} {node : Node}

/-! ### Contents -/

/-- What the outputs of a batch write at a place, in staging order. -/
def contents (batch : Batch) (t : FileTree) (place : Place) : List Node :=
  batch.filterMap fun s => (s.write? t).bind fun w => if w.1 = place then some w.2 else none

/-- What is at a place once a batch is installed: the last of what it writes
there, or what was there before. -/
def contentAfter (batch : Batch) (t : FileTree) (place : Place) : Option Node :=
  (batch.contents t place).getLast?.or (t.get? (.named place))

theorem mem_contents_iff :
    node ∈ batch.contents t place ↔ ∃ s ∈ batch, s.write? t = some (place, node) := by
  simp only [contents, List.mem_filterMap, Option.bind_eq_some_iff, Option.ite_none_right_eq_some,
    Option.some.injEq]
  constructor
  · rintro ⟨s, hs, ⟨place', node'⟩, written, rfl, rfl⟩
    exact ⟨s, hs, written⟩
  · rintro ⟨s, hs, written⟩
    exact ⟨s, hs, (place, node), written, rfl, rfl⟩

/-- A batch writes nothing at a place that none of its targets names. -/
theorem contents_eq_nil (unnamed : ∀ s ∈ batch, t.filePlace? s.target ≠ some place) :
    batch.contents t place = [] := by
  refine List.eq_nil_iff_forall_not_mem.mpr ?_
  intro node mem
  obtain ⟨s, hs, written⟩ := mem_contents_iff.mp mem
  exact unnamed s hs (Staged.filePlace?_of_write? written)

theorem contents_append (batch later : Batch) (t : FileTree) (place : Place) :
    contents (batch ++ later) t place = batch.contents t place ++ later.contents t place :=
  List.filterMap_append

theorem contents_cons (s : Staged) (rest : Batch) (t : FileTree) (place : Place) :
    contents (s :: rest) t place = contents [s] t place ++ rest.contents t place :=
  contents_append [s] rest t place

theorem contents_singleton_same (written : s.write? t = some (place, node)) :
    contents [s] t place = [node] := by
  simp [contents, written]

theorem contents_concat_same (written : s.write? t = some (place, node)) :
    contents (batch ++ [s]) t place = batch.contents t place ++ [node] := by
  rw [contents_append, contents_singleton_same written]

theorem contents_concat_other {other : Place} (written : s.write? t = some (place, node))
    (different : place ≠ other) : contents (batch ++ [s]) t other = batch.contents t other := by
  simp [contents, written, different]

/-- The last output staged for a place is the last that is written there. -/
theorem getLast?_contents {earlier later : Batch} (written : s.write? t = some (place, node))
    (last : ∀ q ∈ later, t.filePlace? q.target ≠ some place) :
    (contents (earlier ++ s :: later) t place).getLast? = some node := by
  rw [contents_append, contents_cons, contents_singleton_same written, contents_eq_nil last,
    List.append_nil, List.getLast?_concat]

/-! ### Different targets -/

/-- The targets of a batch name pairwise different files. -/
def Apart (batch : Batch) (t : FileTree) : Prop :=
  batch.Pairwise fun p q => ∀ place, t.filePlace? p.target = some place →
    t.filePlace? q.target ≠ some place

theorem Apart.of_append {passed later : Batch} (apart : Apart (passed ++ later) t) :
    passed.Apart t :=
  (List.pairwise_append.mp apart).1

theorem Apart.later {earlier later : Batch} (apart : Apart (earlier ++ s :: later) t)
    (named : t.filePlace? s.target = some place) :
    ∀ q ∈ later, t.filePlace? q.target ≠ some place := fun q hq =>
  (List.pairwise_cons.mp (List.pairwise_append.mp apart).2.1).1 q hq place named

/-- Different targets are written once. -/
theorem Apart.contents_length_le (apart : batch.Apart t) (place : Place) :
    (batch.contents t place).length ≤ 1 := by
  induction batch with
  | nil => exact Nat.zero_le _
  | cons s rest ih =>
    obtain ⟨first, rest_apart⟩ := List.pairwise_cons.mp apart
    rw [contents_cons, List.length_append]
    by_cases named : t.filePlace? s.target = some place
    · rw [contents_eq_nil fun q hq => first q hq place named]
      exact List.length_filterMap_le _ _
    · rw [contents_eq_nil fun q hq => by rwa [List.mem_singleton.mp hq], List.length_nil, Nat.zero_add]
      exact ih rest_apart

/-! ### Batches of given outputs -/

/-- A batch of given outputs: each staged file has the path and holds the bytes of
one. -/
def Holds (batch : Batch) (t : FileTree) (outputs : List (String × Bytes)) : Prop :=
  List.Forall₂ (fun o s => s.target = o.1 ∧ s.content? t = some (.file o.2)) outputs batch

variable {outputs : List (String × Bytes)}

theorem write?_of_holds {o : String × Bytes} (target : s.target = o.1)
    (holds : s.content? t = some (.file o.2)) :
    s.write? t = (t.filePlace? o.1).bind fun place =>
      if t.isDirectory place then none else some (place, .file o.2) := by
  rw [Staged.write?, target, holds]
  cases t.filePlace? o.1 <;> rfl

theorem Holds.targets (holds : batch.Holds t outputs) :
    batch.map Staged.target = outputs.map Prod.fst :=
  (map_eq_map_of_forall₂ (holds.imp fun _ _ h => h.1.symm)).symm

/-- Outputs can be installed exactly if their paths admit files. -/
theorem Holds.ready_iff (holds : batch.Holds t outputs) :
    (∀ s ∈ batch, (s.write? t).isSome) ↔ ∀ o ∈ outputs, t.Admits o.1 := by
  induction holds with
  | nil => simp
  | @cons o s outputs batch first rest ih =>
    have one : (s.write? t).isSome ↔ t.Admits o.1 := by
      rw [write?_of_holds first.1 first.2, FileTree.Admits]
      cases t.filePlace? o.1 with
      | none => simp
      | some place => cases vacant : t.isDirectory place <;> simp [vacant]
    rw [List.forall_mem_cons, List.forall_mem_cons, one, ih]

/-- What a batch writes at a place is what its outputs hold for it. -/
theorem Holds.contents_eq (holds : batch.Holds t outputs) (ready : ∀ o ∈ outputs, t.Admits o.1)
    (place : Place) : batch.contents t place = t.contentsOf outputs place := by
  induction holds with
  | nil => rfl
  | @cons o s outputs batch first rest ih =>
    obtain ⟨⟨place', named, vacant⟩, later⟩ := List.forall_mem_cons.mp ready
    have written : s.write? t = some (place', .file o.2) := by
      rw [write?_of_holds first.1 first.2, named, Option.bind_some, vacant]
      rfl
    rw [contents_cons, ih later]
    by_cases same : place' = place
    · simp [contents, FileTree.contentsOf, written, named, same]
    · simp [contents, FileTree.contentsOf, written, named, same]

/-! ### The last but one -/

/-- The last but one of some contents, or else what was there before, is what was
there before. -/
theorem last_but_one_or_eq_iff (contents : List Node) (there : Option Node) :
    contents.dropLast.getLast?.or there = there ↔
      contents.length < 2 ∨ contents.dropLast.getLast? = there := by
  cases h : contents.dropLast.getLast? with
  | none =>
    rw [List.getLast?_eq_none_iff, ← List.length_eq_zero_iff, List.length_dropLast] at h
    simp
    omega
  | some node =>
    have long : ¬ contents.length < 2 := by
      intro short
      have empty : contents.dropLast = [] := by
        rw [← List.length_eq_zero_iff, List.length_dropLast]
        omega
      rw [empty] at h
      cases h
    simp [long]

end Batch

end RefinementTables
