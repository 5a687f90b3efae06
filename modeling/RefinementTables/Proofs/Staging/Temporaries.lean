import RefinementTables.Proofs.FileTree.Moves
import RefinementTables.Staging

/-!
The temporaries of a batch.

A staged output holds its temporary by a path, and what installing it will write
is settled by the directories of the tree and by its temporary (`write?`).

* `clears_drop` — dropping a batch takes its temporaries away and nothing else.
* `stage_ok_iff` — staging succeeds exactly if the output is filled and has a
  directory.
* `stage_error` — staging that fails leaves the batch and the tree as they were.
* `stage_ok` — staging that succeeds adds one temporary and nothing else, and the
  serial numbers of the batch stay distinct and issued.
-/

namespace RefinementTables

open FileTree

variable {t t' : FileTree} {s : Staged} {batch : Batch}

namespace Staged

/-- The temporary of a staged output, if the way to it is there. -/
def temporary? (s : Staged) (t : FileTree) : Option Address :=
  (s.address t).toOption

/-- What the temporary of a staged output holds. -/
def content? (s : Staged) (t : FileTree) : Option Node :=
  (s.temporary? t).bind t.get?

/-- The place and the content that installing an output writes, if it can be
installed. -/
def write? (s : Staged) (t : FileTree) : Option (Place × Node) :=
  match t.filePlace? s.target, s.content? t with
  | some place, some node => if t.isDirectory place then none else some (place, node)
  | _, _ => none

theorem address_eq_ok_iff {a : Address} :
    s.address t = .ok a ↔
      ∃ directory, t.directoryOf s.target = .ok directory ∧ a = .temporary directory s.serial := by
  unfold address
  cases t.directoryOf s.target with
  | error cause => simp [Except.map]
  | ok directory => simp [Except.map, eq_comm]

theorem temporary?_eq_some_iff {a : Address} :
    s.temporary? t = some a ↔
      ∃ directory, t.directoryOf s.target = .ok directory ∧ a = .temporary directory s.serial := by
  rw [← address_eq_ok_iff, temporary?]
  cases s.address t <;> simp [Except.toOption]

theorem temporary?_of_sameWays (same : SameWays t t') (s : Staged) :
    s.temporary? t' = s.temporary? t := by
  apply Option.ext
  intro a
  simp only [temporary?_eq_some_iff, same.directoryOf_eq_ok_iff]

theorem write?_eq_some_iff {place : Place} {node : Node} :
    s.write? t = some (place, node) ↔
      t.filePlace? s.target = some place ∧ t.isDirectory place = false ∧
        ∃ a, s.temporary? t = some a ∧ t.get? a = some node := by
  unfold write?
  cases t.filePlace? s.target with
  | none => simp
  | some found =>
    cases h : s.content? t with
    | none =>
      simp only [reduceCtorEq, false_iff]
      rintro ⟨-, -, a, temporary, held⟩
      rw [content?, temporary, Option.bind_some, held] at h
      cases h
    | some content =>
      obtain ⟨a, temporary, held⟩ := Option.bind_eq_some_iff.mp h
      simp only [temporary]
      constructor
      · intro written
        split at written
        · cases written
        · next vacant =>
          cases written
          exact ⟨rfl, by simpa using vacant, a, rfl, held⟩
      · rintro ⟨⟨⟩, vacant, b, ⟨⟩, held'⟩
        rw [held] at held'
        cases held'
        rw [if_neg (by simp [vacant])]

/-- What an output writes is what its temporary holds. -/
theorem content?_of_write? (written : s.write? t = some (place, node)) :
    s.content? t = some node := by
  obtain ⟨-, -, a, temporary, held⟩ := write?_eq_some_iff.mp written
  exact Option.bind_eq_some_iff.mpr ⟨a, temporary, held⟩

theorem filePlace?_of_write? (written : s.write? t = some (place, node)) :
    t.filePlace? s.target = some place :=
  (write?_eq_some_iff.mp written).1

/-- An output that can be installed is a file. -/
theorem exists_bytes (tree : t.IsTree) (written : s.write? t = some (place, node)) :
    ∃ bytes, node = .file bytes := by
  obtain ⟨-, -, a, temporary, held⟩ := write?_eq_some_iff.mp written
  obtain ⟨directory, -, rfl⟩ := temporary?_eq_some_iff.mp temporary
  cases node with
  | file bytes => exact ⟨bytes, rfl⟩
  | directory => exact absurd held (tree.temporary directory s.serial)

/-- What an output writes does not change as long as the ways and its temporary
stay. -/
theorem write?_congr (same : SameWays t t')
    (kept : ∀ a, s.temporary? t = some a → t'.get? a = t.get? a) : s.write? t' = s.write? t := by
  apply Option.ext
  rintro ⟨place, node⟩
  simp only [write?_eq_some_iff, same.filePlace?_eq, same.directories, temporary?_of_sameWays same]
  constructor
  · rintro ⟨named, vacant, a, temporary, held⟩
    exact ⟨named, vacant, a, temporary, kept a temporary ▸ held⟩
  · rintro ⟨named, vacant, a, temporary, held⟩
    exact ⟨named, vacant, a, temporary, (kept a temporary).symm ▸ held⟩

/-- Installing moves the temporary onto the place that is written. -/
theorem install_eq_ok_iff :
    s.install t = .ok t' ↔
      ∃ a place node, s.temporary? t = some a ∧ s.write? t = some (place, node) ∧
        t' = (t.erase a).set (.named place) node := by
  unfold install
  have address_iff : ∀ a, s.address t = .ok a ↔ s.temporary? t = some a := fun a => by
    rw [address_eq_ok_iff, temporary?_eq_some_iff]
  constructor
  · intro h
    by_cases ended : '\x00' ∈ s.target.toList
    · rw [if_pos ended] at h
      cases h
    · rw [if_neg ended] at h
      simp only [bind_eq_ok_iff, moveOnto_eq_ok_iff, address_iff] at h
      obtain ⟨-, -, a, temporary, place, node, named, held, vacant, rfl⟩ := h
      exact ⟨a, place, node, temporary,
        write?_eq_some_iff.mpr ⟨named, vacant, a, temporary, held⟩, rfl⟩
  · rintro ⟨a, place, node, temporary, written, rfl⟩
    obtain ⟨named, vacant, b, temporary', held⟩ := write?_eq_some_iff.mp written
    rw [temporary] at temporary'
    cases temporary'
    have checked := checkPath_of_filePlace? named
    rw [if_neg]
    · simp only [bind_eq_ok_iff, moveOnto_eq_ok_iff, address_iff]
      exact ⟨(), checked, a, temporary, place, node, named, held, vacant, rfl⟩
    · intro ended
      unfold checkPath at checked
      rw [if_pos ended] at checked
      split at checked <;> cases checked

theorem unused_drop (s : Staged) (t : FileTree) : (s.drop t).unused = t.unused := by
  unfold drop
  cases s.address t <;> rfl

theorem drop_eq (s : Staged) (t : FileTree) : s.drop t = (s.temporary? t).elim t t.erase := by
  unfold drop temporary?
  cases s.address t <;> rfl

end Staged

namespace Batch

/-- The temporaries of a batch. -/
def temporaries (batch : Batch) (t : FileTree) : List Address :=
  batch.filterMap fun s => s.temporary? t

theorem mem_temporaries_iff {a : Address} :
    a ∈ batch.temporaries t ↔ ∃ s ∈ batch, s.temporary? t = some a :=
  List.mem_filterMap

theorem temporaries_of_sameWays (same : SameWays t t') (batch : Batch) :
    batch.temporaries t' = batch.temporaries t := by
  unfold temporaries
  rw [funext (Staged.temporary?_of_sameWays same)]

theorem temporaries_append (batch later : Batch) (t : FileTree) :
    temporaries (batch ++ later) t = batch.temporaries t ++ later.temporaries t :=
  List.filterMap_append

/-- A temporary of a batch has the serial number of one of its outputs. -/
theorem serial_of_mem_temporaries {directory : Place} {serial : Nat}
    (h : .temporary directory serial ∈ batch.temporaries t) : ∃ s ∈ batch, s.serial = serial := by
  obtain ⟨s, hs, temporary⟩ := mem_temporaries_iff.mp h
  obtain ⟨_, -, same⟩ := Staged.temporary?_eq_some_iff.mp temporary
  cases same
  exact ⟨s, hs, rfl⟩

theorem named_not_mem_temporaries (batch : Batch) (t : FileTree) (place : Place) :
    .named place ∉ batch.temporaries t := by
  intro h
  obtain ⟨s, -, temporary⟩ := mem_temporaries_iff.mp h
  obtain ⟨_, -, same⟩ := Staged.temporary?_eq_some_iff.mp temporary
  cases same

/-- The temporaries of a batch are gone, and no others have come or gone. -/
def Spends (batch : Batch) (t t' : FileTree) : Prop :=
  ∀ directory serial, t'.get? (.temporary directory serial) =
    if .temporary directory serial ∈ batch.temporaries t then none
    else t.get? (.temporary directory serial)

/-- All temporaries of a tree are those that a batch finds by its paths. -/
def OwnsAll (batch : Batch) (t : FileTree) : Prop :=
  ∀ directory serial, t.get? (.temporary directory serial) ≠ none →
    .temporary directory serial ∈ batch.temporaries t

/-- Where there were no others, no temporary remains. -/
theorem Spends.none_left (spent : batch.Spends t t') (all : batch.OwnsAll t) (directory : Place)
    (serial : Nat) : t'.get? (.temporary directory serial) = none := by
  rw [spent]
  split
  · rfl
  · next foreign =>
    cases there : t.get? (.temporary directory serial) with
    | none => rfl
    | some node => exact absurd (all directory serial (by simp [there])) foreign

/-- The second tree is the first without the temporaries of a batch. -/
structure Clears (batch : Batch) (t t' : FileTree) : Prop where
  here : t'.here = t.here
  nodes : ∀ a, t'.get? a = if a ∈ batch.temporaries t then none else t.get? a

theorem Clears.named (h : batch.Clears t t') (place : Place) :
    t'.get? (.named place) = t.get? (.named place) := by
  rw [h.nodes, if_neg (batch.named_not_mem_temporaries t place)]

theorem Clears.sameWays (h : batch.Clears t t') : SameWays t t' :=
  .of_named h.here fun place => by rw [h.named]

theorem Clears.agrees {t₁ t₂ : FileTree} (h₁ : batch.Clears t t₁) (h₂ : batch.Clears t t₂) :
    Agrees t₁ t₂ :=
  ⟨h₂.here.trans h₁.here.symm, fun a => (h₂.nodes a).trans (h₁.nodes a).symm⟩

theorem Clears.append {later : Batch} {t₁ t₂ : FileTree} (first : batch.Clears t t₁)
    (second : later.Clears t₁ t₂) : Clears (batch ++ later) t t₂ := by
  refine ⟨second.here.trans first.here, ?_⟩
  intro a
  rw [second.nodes, first.nodes, temporaries_of_sameWays first.sameWays, temporaries_append]
  by_cases h : a ∈ later.temporaries t <;> simp [h]

theorem Clears.of_agrees {t₁ t₂ : FileTree} (same : Agrees t t₁) (clears : batch.Clears t₁ t₂) :
    batch.Clears t t₂ := by
  refine ⟨clears.here.trans same.here, ?_⟩
  intro a
  rw [clears.nodes, same.nodes, temporaries_of_sameWays same.sameWays]

/-- What clears a batch clears its first part where the rest has not come yet. -/
theorem Clears.of_append {later : Batch} {t₁ t₂ : FileTree}
    (all : Clears (batch ++ later) t t₂) (last : later.Clears t t₁) : batch.Clears t₁ t₂ := by
  refine ⟨all.here.trans last.here.symm, ?_⟩
  intro a
  rw [all.nodes, last.nodes, temporaries_of_sameWays last.sameWays, temporaries_append]
  by_cases h : a ∈ later.temporaries t <;> simp [h]

theorem Clears.append_comm {later : Batch} (clears : Clears (batch ++ later) t t') :
    Clears (later ++ batch) t t' := by
  refine ⟨clears.here, ?_⟩
  intro a
  simp only [clears.nodes, temporaries_append, List.mem_append, or_comm]

theorem clears_nil (t : FileTree) : Clears [] t t :=
  ⟨rfl, fun _ => rfl⟩

/-- What an output holds before a later batch has come, it holds after. -/
theorem Clears.content?_eq (clears : batch.Clears t t') {node : Node}
    (holds : s.content? t' = some node) : s.content? t = some node := by
  obtain ⟨a, temporary, held⟩ := Option.bind_eq_some_iff.mp holds
  rw [Staged.temporary?_of_sameWays clears.sameWays] at temporary
  refine Option.bind_eq_some_iff.mpr ⟨a, temporary, ?_⟩
  rw [clears.nodes] at held
  split at held
  · cases held
  · exact held

/-! ### Dropping -/

/-- Dropping an output takes its temporary away and nothing else. -/
theorem clears_drop_one (s : Staged) (t : FileTree) : Clears [s] t (s.drop t) := by
  rw [Staged.drop_eq]
  cases temporary : s.temporary? t with
  | none => exact ⟨rfl, fun a => by simp [temporaries, temporary]⟩
  | some a => exact ⟨rfl, fun b => by simp [temporaries, temporary]⟩

/-- Dropping a batch takes its temporaries away and nothing else. -/
theorem clears_drop (batch : Batch) (t : FileTree) : batch.Clears t (batch.drop t) := by
  induction batch generalizing t with
  | nil => exact clears_nil t
  | cons s rest ih => exact (clears_drop_one s t).append (ih (s.drop t))

/-! ### Staging -/

/-- The serial numbers of a batch are distinct, and none of them will be given
again. -/
structure Held (batch : Batch) (t : FileTree) : Prop where
  distinct : (batch.map Staged.serial).Nodup
  issued : ∀ s ∈ batch, s.serial < t.unused

theorem held_nil (t : FileTree) : Held [] t :=
  ⟨List.nodup_nil, by simp⟩

/-- What a new temporary for a path makes of a tree: the staged output has it, it
holds the bytes, and without it the tree is the one before. -/
theorem stage_created {target : String} {directory : Place}
    (reached : t.directoryOf target = .ok directory) (bytes : Bytes) :
    let made := (t.createTemporary directory bytes).1
    let s : Staged := ⟨target, t.freshSerial⟩
    s.temporary? made = some (t.fresh directory) ∧
      made.get? (t.fresh directory) = some (.file bytes) ∧ Clears [s] made t := by
  have same := sameWays_createTemporary t directory bytes
  have temporary : (⟨target, t.freshSerial⟩ : Staged).temporary?
      (t.createTemporary directory bytes).1 = some (t.fresh directory) := by
    rw [Staged.temporary?_of_sameWays same, Staged.temporary?_eq_some_iff]
    exact ⟨directory, reached, rfl⟩
  refine ⟨temporary, by simp [get?_createTemporary], rfl, fun a => ?_⟩
  have only : temporaries [⟨target, t.freshSerial⟩] (t.createTemporary directory bytes).1 =
      [t.fresh directory] := by
    simp [temporaries, temporary]
  rw [only, get?_createTemporary]
  by_cases h : a = t.fresh directory <;> simp [h]

/-- Staging makes temporaries only, so that every way stays as it is. -/
theorem sameWays_stage {α : Type} (batch : Batch) (t : FileTree) (target : String)
    (filling : Filling α) : SameWays t (batch.stage t target filling).tree := by
  unfold stage
  cases reached : t.directoryOf target with
  | error cause => exact .refl t
  | ok directory =>
    cases filling.result with
    | error fault =>
      obtain ⟨-, -, clears⟩ := stage_created reached filling.bytes
      exact (clears.agrees (clears_drop_one _ _)).sameWays
    | ok a => exact sameWays_createTemporary t directory filling.bytes

/-- Staging succeeds exactly if the filling does and the target has a directory. -/
theorem stage_ok_iff {α : Type} {target : String} {filling : Filling α} :
    (∃ a, (batch.stage t target filling).result = .ok a) ↔
      (∃ a, filling.result = .ok a) ∧ ∃ directory, t.directoryOf target = .ok directory := by
  unfold stage
  cases t.directoryOf target with
  | error cause => simp
  | ok directory => cases filling.result <;> simp

/-- Staging that fails leaves the batch and the tree as they were. -/
theorem stage_error {α : Type} {target : String} {filling : Filling α} {fault : Fault}
    (failed : (batch.stage t target filling).result = .error fault) :
    (batch.stage t target filling).batch = batch ∧
      Agrees t (batch.stage t target filling).tree ∧
      t.unused ≤ (batch.stage t target filling).tree.unused := by
  unfold stage at failed ⊢
  cases reached : t.directoryOf target with
  | error cause => exact ⟨rfl, .refl t, Nat.le_refl _⟩
  | ok directory =>
    cases filled : filling.result with
    | error fault =>
      obtain ⟨-, -, clears⟩ := stage_created reached filling.bytes
      refine ⟨rfl, clears.agrees (clears_drop_one _ _), ?_⟩
      rw [Staged.unused_drop]
      exact Nat.le_succ_of_le (unused_le_freshSerial t)
    | ok a =>
      simp only [reached, filled] at failed
      cases failed

/-- Staging that succeeds puts one output behind the others. -/
theorem stage_ok {α : Type} {target : String} {filling : Filling α} {a : α}
    (tree : t.IsTree) (held : batch.Held t)
    (done : (batch.stage t target filling).result = .ok a) :
    ∃ s : Staged, s.target = target ∧ (batch.stage t target filling).batch = batch ++ [s] ∧
      s.content? (batch.stage t target filling).tree = some (.file filling.bytes) ∧
      Clears [s] (batch.stage t target filling).tree t ∧
      (batch.stage t target filling).tree.IsTree ∧
      (batch ++ [s]).Held (batch.stage t target filling).tree := by
  unfold stage at done ⊢
  cases reached : t.directoryOf target with
  | error cause =>
    simp only [reached] at done
    cases done
  | ok directory =>
    cases filled : filling.result with
    | error fault =>
      simp only [reached, filled] at done
      cases done
    | ok b =>
      obtain ⟨temporary, holds, clears⟩ := stage_created reached filling.bytes
      have lower : ∀ s ∈ batch, s.serial < t.freshSerial := fun s hs =>
        Nat.lt_of_lt_of_le (held.issued s hs) (unused_le_freshSerial t)
      refine ⟨⟨target, t.freshSerial⟩, rfl, rfl, ?_, clears, ?_, ?_, ?_⟩
      · exact Option.bind_eq_some_iff.mpr ⟨_, temporary, holds⟩
      · exact tree.createTemporary (isDirectory_of_directoryOf reached) filling.bytes
      · rw [List.map_append, List.nodup_append]
        refine ⟨held.distinct, by simp, ?_⟩
        intro n hn m hm
        obtain ⟨s, hs, rfl⟩ := List.mem_map.mp hn
        rw [List.map_singleton, List.mem_singleton] at hm
        exact hm ▸ Nat.ne_of_lt (lower s hs)
      · intro s hs
        refine Nat.lt_succ_of_le ?_
        rcases List.mem_append.mp hs with hs | hs
        · exact Nat.le_of_lt (lower s hs)
        · exact Nat.le_of_eq (congrArg Staged.serial (List.mem_singleton.mp hs))

/-! ### Batches that were staged -/

/-- The batches that staging leads to, one output after the other, and the trees
with their temporaries. -/
inductive StagedFrom (start : FileTree) : Batch → FileTree → Prop where
  | empty : StagedFrom start [] start
  | stage {α : Type} {batch : Batch} {t : FileTree} (target : String) (filling : Filling α) :
      StagedFrom start batch t →
      StagedFrom start (batch.stage t target filling).batch (batch.stage t target filling).tree

/-- What a staged batch adds to a tree is its temporaries. -/
theorem StagedFrom.clears {start : FileTree} (staged : StagedFrom start batch t)
    (tree : start.IsTree) : batch.Clears t start ∧ t.IsTree ∧ batch.Held t := by
  induction staged with
  | empty => exact ⟨clears_nil start, tree, held_nil start⟩
  | @stage α batch t target filling _ ih =>
    obtain ⟨clears, tree, held⟩ := ih
    cases result : (batch.stage t target filling).result with
    | error fault =>
      obtain ⟨kept, same, unused⟩ := stage_error result
      rw [kept]
      refine ⟨clears.of_agrees same.symm, same.isTree tree, held.distinct, ?_⟩
      intro s hs
      exact Nat.lt_of_lt_of_le (held.issued s hs) unused
    | ok a =>
      obtain ⟨s, -, grown, -, clears', tree', held'⟩ := stage_ok tree held result
      rw [grown]
      exact ⟨(clears'.append clears).append_comm, tree', held'⟩

/-- So it owns all temporaries, if there were none before. -/
theorem StagedFrom.ownsAll {start : FileTree} (staged : StagedFrom start batch t)
    (tree : start.IsTree)
    (none_before : ∀ directory serial, start.get? (.temporary directory serial) = none) :
    batch.OwnsAll t := by
  intro directory serial there
  have cleared := (staged.clears tree).1.nodes (.temporary directory serial)
  rw [none_before] at cleared
  by_cases own : .temporary directory serial ∈ batch.temporaries t
  · exact own
  · rw [if_neg own] at cleared
    exact absurd cleared.symm there

end Batch

end RefinementTables
