import RefinementTables.Proofs.FileTree.Paths

/-!
What moves do to a tree.

Every operation of a run changes files only, so that it keeps the ways of the
tree and leaves a tree (`SameWays`, `IsTree`). The operations on paths are stated
through `filePlace?` and `get?`, so that no later proof walks a path again. What
changes is told apart by files and temporaries (`SameFiles`, `SameTemporaries`).
-/

namespace RefinementTables.FileTree

variable {t t' : FileTree} {path : String} {place : Place}

/-! ### Trees that hold the same -/

/-- Two trees with the same nodes, seen from the same directory. -/
structure Agrees (t t' : FileTree) : Prop where
  here : t'.here = t.here
  nodes : ∀ a, t'.get? a = t.get? a

theorem Agrees.refl (t : FileTree) : Agrees t t := ⟨rfl, fun _ => rfl⟩

theorem Agrees.symm (h : Agrees t t') : Agrees t' t :=
  ⟨h.here.symm, fun a => (h.nodes a).symm⟩

theorem SameWays.of_named (here : t'.here = t.here)
    (directories : ∀ place,
      t'.get? (.named place) = some .directory ↔ t.get? (.named place) = some .directory) :
    SameWays t t' := by
  refine ⟨here, ?_⟩
  intro place
  unfold isDirectory
  rw [decide_eq_decide]
  exact directories place

theorem Agrees.sameWays (h : Agrees t t') : SameWays t t' :=
  .of_named h.here fun place => by rw [h.nodes]

theorem Agrees.isTree (h : Agrees t t') (tree : t.IsTree) : t'.IsTree where
  parent a node held := by
    rw [h.sameWays.directories]
    exact tree.parent a node (h.nodes a ▸ held)
  temporary directory serial := by
    rw [h.nodes]
    exact tree.temporary directory serial

/-- Two trees that hold the same, apart from temporaries. -/
structure SameFiles (t t' : FileTree) : Prop where
  here : t'.here = t.here
  named : ∀ place, t'.get? (.named place) = t.get? (.named place)

theorem SameFiles.symm (h : SameFiles t t') : SameFiles t' t :=
  ⟨h.here.symm, fun place => (h.named place).symm⟩

theorem Agrees.sameFiles (h : Agrees t t') : SameFiles t t' :=
  ⟨h.here, fun place => h.nodes (.named place)⟩

/-- Two trees with the same temporaries. -/
def SameTemporaries (t t' : FileTree) : Prop :=
  ∀ directory serial,
    t'.get? (.temporary directory serial) = t.get? (.temporary directory serial)

/-- A tree without temporaries. -/
def Clean (t : FileTree) : Prop :=
  ∀ directory serial, t.get? (.temporary directory serial) = none

/-! ### Changes of one file -/

theorem sameWays_set_file {a : Address} (vacant : t.get? a ≠ some .directory) (bytes : Bytes) :
    SameWays t (t.set a (.file bytes)) := by
  refine .of_named rfl ?_
  intro place
  rw [get?_set]
  split
  · next same => simp [same, vacant]
  · exact Iff.rfl

theorem sameWays_erase {a : Address} (vacant : t.get? a ≠ some .directory) :
    SameWays t (t.erase a) := by
  refine .of_named rfl ?_
  intro place
  rw [get?_erase]
  split
  · next same => simp [same, vacant]
  · exact Iff.rfl

theorem IsTree.set_file (tree : t.IsTree) {a : Address} (vacant : t.get? a ≠ some .directory)
    (there : t.isDirectory (parentOf a) = true) (bytes : Bytes) :
    (t.set a (.file bytes)).IsTree where
  parent b node held := by
    rw [(sameWays_set_file vacant bytes).directories]
    rw [get?_set] at held
    split at held
    · next same => exact same ▸ there
    · exact tree.parent b node held
  temporary directory serial := by
    rw [get?_set]
    split
    · simp
    · exact tree.temporary directory serial

theorem IsTree.erase (tree : t.IsTree) {a : Address} (vacant : t.get? a ≠ some .directory) :
    (t.erase a).IsTree where
  parent b node held := by
    rw [(sameWays_erase vacant).directories]
    rw [get?_erase] at held
    split at held
    · cases held
    · exact tree.parent b node held
  temporary directory serial := by
    rw [get?_erase]
    split
    · simp
    · exact tree.temporary directory serial

/-! ### Temporaries -/

theorem unused_le_freshSerial (t : FileTree) : t.unused ≤ t.freshSerial :=
  (foldl_serialAbove_ge t.nodes t.unused).1

/-- The address that the next temporary in a directory gets. -/
def fresh (t : FileTree) (directory : Place) : Address :=
  .temporary directory t.freshSerial

@[simp] theorem get?_fresh (t : FileTree) (directory : Place) :
    t.get? (t.fresh directory) = none :=
  get?_freshSerial t directory

@[simp] theorem fresh_ne_named (t : FileTree) (directory place : Place) :
    t.fresh directory ≠ .named place := by
  simp [fresh]

@[simp] theorem named_ne_fresh (t : FileTree) (directory place : Place) :
    .named place ≠ t.fresh directory :=
  (t.fresh_ne_named directory place).symm

theorem get?_createTemporary (t : FileTree) (directory : Place) (bytes : Bytes) (a : Address) :
    (t.createTemporary directory bytes).1.get? a =
      if a = t.fresh directory then some (.file bytes) else t.get? a :=
  get?_set t (t.fresh directory) a (.file bytes)

theorem sameWays_createTemporary (t : FileTree) (directory : Place) (bytes : Bytes) :
    SameWays t (t.createTemporary directory bytes).1 := by
  refine .of_named rfl ?_
  intro place
  rw [get?_createTemporary, if_neg (by simp)]

theorem IsTree.createTemporary (tree : t.IsTree) {directory : Place}
    (there : t.isDirectory directory = true) (bytes : Bytes) :
    (t.createTemporary directory bytes).1.IsTree := by
  have vacant : t.get? (t.fresh directory) ≠ some .directory := by simp
  have made : (t.set (t.fresh directory) (.file bytes)).IsTree := tree.set_file vacant there bytes
  exact ⟨made.parent, made.temporary⟩

/-! ### Moving onto a path -/

theorem moveOnto_eq_ok_iff {source : Address} :
    t.moveOnto source path = .ok t' ↔
      ∃ place node, t.filePlace? path = some place ∧ t.get? source = some node ∧
        t.isDirectory place = false ∧ t' = (t.erase source).set (.named place) node := by
  unfold moveOnto
  simp only [bind_eq_ok_iff, filePlace?_eq_some_iff]
  constructor
  · rintro ⟨⟨directory, name⟩, reached, h⟩
    cases held : t.get? source with
    | none =>
      rw [held] at h
      cases h
    | some node =>
      simp only [held] at h
      by_cases long : nameLimit < name.utf8ByteSize
      · rw [if_pos long] at h
        cases h
      rw [if_neg long] at h
      cases slash : (Path.ofText path).slash with
      | true =>
        rw [slash, if_pos rfl] at h
        cases h
      | false =>
        rw [slash, if_neg (by simp)] at h
        cases occupied : t.isDirectory (directory ++ [name]) with
        | true =>
          rw [occupied, if_pos rfl] at h
          cases h
        | false =>
          rw [occupied, if_neg (by simp)] at h
          cases h
          exact ⟨directory ++ [name], node,
            ⟨directory, name, reached, Nat.le_of_not_lt long, rfl, rfl⟩, rfl, occupied, rfl⟩
  · rintro ⟨_, node, ⟨directory, name, reached, short, slash, rfl⟩, held, vacant, rfl⟩
    refine ⟨(directory, name), reached, ?_⟩
    simp only [held, if_neg (Nat.not_lt.mpr short), slash, vacant]
    rfl

/-- A file that is moved onto a place without a directory. -/
theorem sameWays_move {source : Address} (loose : t.get? source ≠ some .directory)
    (vacant : t.isDirectory place = false) (bytes : Bytes) :
    SameWays t ((t.erase source).set (.named place) (.file bytes)) := by
  have erased := sameWays_erase loose
  refine erased.trans (sameWays_set_file ?_ bytes)
  rw [Ne, ← isDirectory_iff, erased.directories, vacant]
  simp

theorem IsTree.move (tree : t.IsTree) {source : Address} (loose : t.get? source ≠ some .directory)
    (vacant : t.isDirectory place = false) (there : t.isDirectory place.dropLast = true)
    (bytes : Bytes) : ((t.erase source).set (.named place) (.file bytes)).IsTree := by
  have erased := sameWays_erase loose
  refine (tree.erase loose).set_file ?_ (by rw [erased.directories]; exact there) bytes
  rw [Ne, ← isDirectory_iff, erased.directories, vacant]
  simp

/-! ### Removing and moving aside -/

/-- Removing a file that is there succeeds. -/
theorem removeFile_eq_ok (tree : t.IsTree) {bytes : Bytes}
    (named : t.filePlace? path = some place) (held : t.get? (.named place) = some (.file bytes)) :
    t.removeFile path = .ok (t.erase (.named place)) := by
  unfold removeFile
  rw [bind_eq_ok_iff]
  exact ⟨_, (find_file_iff tree).mpr ⟨named, held⟩, rfl⟩

/-- The tree with the file at a place moved to a fresh temporary beside it. -/
def withAside (t : FileTree) (place : Place) (bytes : Bytes) : FileTree :=
  (t.createTemporary place.dropLast bytes).1.erase (.named place)

theorem get?_withAside (t : FileTree) (place : Place) (bytes : Bytes) (a : Address) :
    (t.withAside place bytes).get? a =
      if a = .named place then none
      else if a = t.fresh place.dropLast then some (.file bytes) else t.get? a := by
  rw [withAside, get?_erase, get?_createTemporary]

theorem moveAside_of_file (tree : t.IsTree) {bytes : Bytes}
    (named : t.filePlace? path = some place) (held : t.get? (.named place) = some (.file bytes)) :
    t.moveAside path = (t.withAside place bytes, some (t.fresh place.dropLast)) := by
  unfold moveAside
  rw [(find_file_iff tree).mpr ⟨named, held⟩]
  rfl

theorem moveAside_of_no_file (tree : t.IsTree)
    (absent : ∀ place bytes, t.filePlace? path = some place →
      t.get? (.named place) ≠ some (.file bytes)) :
    t.moveAside path = (t, none) := by
  unfold moveAside
  split
  · next place bytes found =>
    obtain ⟨named, held⟩ := (find_file_iff tree).mp found
    exact absurd held (absent place bytes named)
  · rfl

theorem sameWays_withAside {bytes : Bytes} (held : t.get? (.named place) = some (.file bytes)) :
    SameWays t (t.withAside place bytes) := by
  refine (sameWays_createTemporary t place.dropLast bytes).trans (sameWays_erase ?_)
  rw [get?_createTemporary, if_neg (by simp), held]
  simp

theorem IsTree.withAside (tree : t.IsTree) {bytes : Bytes}
    (held : t.get? (.named place) = some (.file bytes)) : (t.withAside place bytes).IsTree := by
  refine (tree.createTemporary (tree.parent _ _ held) bytes).erase ?_
  rw [get?_createTemporary, if_neg (by simp), held]
  simp

end RefinementTables.FileTree
