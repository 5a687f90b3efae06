import RefinementTables.Proofs.Staging.Temporaries

/-!
One move of a commit.

A commit moves the file at a target aside and then the staged file onto it.

* `exists_moves` — where the output can be installed, both succeed; `Moves` says
  everything that they do to the tree.
* `install_moveAside_error`, `agrees_putBack` — otherwise the second is refused,
  and putting the file back leaves the tree as it was.
-/

namespace RefinementTables

open FileTree

variable {t t' : FileTree} {s : Staged}

/-! ### A move that succeeds -/

/-- What one move makes of a tree: the output stands at its place, its temporary
is gone, and what was at the place is kept at a fresh address. -/
structure Moves (s : Staged) (place : Place) (node : Node) (saved : Option (Address × Node))
    (t t' : FileTree) : Prop where
  saved_eq : saved.map Prod.snd = t.get? (.named place)
  saved_fresh : ∀ k ∈ saved, k.1 = t.fresh place.dropLast ∧ t.freshSerial < t'.unused
  saved_held : ∀ k ∈ saved, t'.get? k.1 = some k.2
  named : ∀ other, t'.get? (.named other) =
    if other = place then some node else t.get? (.named other)
  temporary : ∀ directory serial, saved.map Prod.fst ≠ some (.temporary directory serial) →
    t'.get? (.temporary directory serial) =
      if s.temporary? t = some (.temporary directory serial) then none
      else t.get? (.temporary directory serial)
  ways : SameWays t t'
  tree : t'.IsTree
  unused : t.unused ≤ t'.unused

/-- Where nothing stands at the place, the temporary is moved there. -/
theorem moves_onto_nothing {place : Place} {node : Node} (tree : t.IsTree)
    (written : s.write? t = some (place, node)) (absent : t.get? (.named place) = none) :
    ∃ t', t.moveAside s.target = (t, none) ∧ s.install t = .ok t' ∧
      Moves s place node none t t' := by
  obtain ⟨named, vacant, a, temporary, held⟩ := Staged.write?_eq_some_iff.mp written
  obtain ⟨directory, -, rfl⟩ := Staged.temporary?_eq_some_iff.mp temporary
  have loose := tree.temporary directory s.serial
  cases node with
  | directory => exact absurd held loose
  | file bytes =>
    refine ⟨_, ?_, Staged.install_eq_ok_iff.mpr ⟨_, place, _, temporary, written, rfl⟩, ?_⟩
    · refine moveAside_of_no_file tree ?_
      intro place' bytes' named'
      rw [named] at named'
      cases named'
      rw [absent]
      simp
    · exact {
        saved_eq := absent.symm
        saved_fresh := by simp
        saved_held := by simp
        named := fun other => by simp
        temporary := fun d n _ => by simp [temporary, eq_comm]
        ways := sameWays_move loose vacant bytes
        tree := tree.move loose vacant (isDirectory_dropLast_of_filePlace? named) bytes
        unused := Nat.le_refl _ }

/-- Where a file stands at the place, it is moved aside before. -/
theorem moves_onto_file {place : Place} {node : Node} {old : Bytes} (tree : t.IsTree)
    (written : s.write? t = some (place, node)) (there : t.get? (.named place) = some (.file old)) :
    ∃ t', t.moveAside s.target = (t.withAside place old, some (t.fresh place.dropLast)) ∧
      s.install (t.withAside place old) = .ok t' ∧
      Moves s place node (some (t.fresh place.dropLast, .file old)) t t' := by
  obtain ⟨named, vacant, a, temporary, held⟩ := Staged.write?_eq_some_iff.mp written
  have same := sameWays_withAside there
  have asideTree := tree.withAside there
  have notFresh : a ≠ t.fresh place.dropLast := by
    rintro rfl
    rw [get?_fresh] at held
    cases held
  have notNamed : a ≠ .named place := by
    obtain ⟨directory, -, rfl⟩ := Staged.temporary?_eq_some_iff.mp temporary
    simp
  have kept : (t.withAside place old).get? a = some node := by
    rw [get?_withAside, if_neg notNamed, if_neg notFresh, held]
  have temporary' : s.temporary? (t.withAside place old) = some a := by
    rw [Staged.temporary?_of_sameWays same, temporary]
  have written' : s.write? (t.withAside place old) = some (place, node) := by
    refine Staged.write?_eq_some_iff.mpr ⟨?_, ?_, a, temporary', kept⟩
    · rw [same.filePlace?_eq, named]
    · rw [same.directories, vacant]
  obtain ⟨directory, -, rfl⟩ := Staged.temporary?_eq_some_iff.mp temporary
  have loose := asideTree.temporary directory s.serial
  cases node with
  | directory => exact absurd kept loose
  | file bytes =>
    refine ⟨_, moveAside_of_file tree named there,
      Staged.install_eq_ok_iff.mpr ⟨_, place, _, temporary', written', rfl⟩, ?_⟩
    have vacant' : (t.withAside place old).isDirectory place = false := by
      rw [same.directories, vacant]
    have parent : (t.withAside place old).isDirectory place.dropLast = true := by
      rw [same.directories]
      exact isDirectory_dropLast_of_filePlace? named
    exact {
      saved_eq := there.symm
      saved_fresh := by
        rintro k ⟨⟩
        exact ⟨rfl, Nat.lt_succ_self _⟩
      saved_held := by
        rintro k ⟨⟩
        rw [get?_set, get?_erase, if_neg (by simp), if_neg (Ne.symm notFresh), get?_withAside,
          if_neg (by simp), if_pos rfl]
      named := by
        intro other
        rw [get?_set, get?_erase, if_neg (by simp : Address.named other ≠ .temporary _ _),
          get?_withAside]
        by_cases same : other = place <;> simp [same]
      temporary := by
        intro d n unsaved
        have notSaved : Address.temporary d n ≠ t.fresh place.dropLast := fun same =>
          unsaved (congrArg some same.symm)
        rw [get?_set, get?_erase, get?_withAside, if_neg (by simp : ¬ Address.temporary d n = .named place),
          if_neg (by simp : ¬ Address.temporary d n = .named place), if_neg notSaved, temporary]
        by_cases own : Address.temporary d n = .temporary directory s.serial
        · rw [if_pos own, if_pos (congrArg some own.symm)]
        · rw [if_neg own, if_neg fun h => own (Option.some.inj h).symm]
      ways := same.trans (sameWays_move loose vacant' bytes)
      tree := asideTree.move loose vacant' parent bytes
      unused := Nat.le_succ_of_le (unused_le_freshSerial t) }

/-- An output that can be installed is moved onto its place. -/
theorem exists_moves {place : Place} {node : Node} (tree : t.IsTree)
    (written : s.write? t = some (place, node)) :
    ∃ saved t', (t.moveAside s.target).2 = saved.map Prod.fst ∧
      s.install (t.moveAside s.target).1 = .ok t' ∧ Moves s place node saved t t' := by
  have vacant := (Staged.write?_eq_some_iff.mp written).2.1
  cases there : t.get? (.named place) with
  | none =>
    obtain ⟨t', aside, installed, moves⟩ := moves_onto_nothing tree written there
    exact ⟨none, t', by rw [aside]; rfl, by rw [aside]; exact installed, moves⟩
  | some node' =>
    cases node' with
    | directory =>
      rw [isDirectory_iff.mpr there] at vacant
      cases vacant
    | file old =>
      obtain ⟨t', aside, installed, moves⟩ := moves_onto_file tree written there
      exact ⟨_, t', by rw [aside]; rfl, by rw [aside]; exact installed, moves⟩

/-! ### A move that is refused -/

/-- What a refused move leaves: the tree after the file that was moved aside has
come back. -/
def putBack (t : FileTree) (target : String) : FileTree × List Event :=
  match t.moveAside target with
  | (aside, some previous) => Installed.restore aside target previous
  | (aside, none) => (aside, [])

theorem restore_eq {target : String} {place : Place} {a : Address} {node : Node}
    (named : t.filePlace? target = some place) (vacant : t.isDirectory place = false)
    (held : t.get? a = some node) :
    Installed.restore t target a = ((t.erase a).set (.named place) node, []) := by
  have moved : t.moveOnto a target = .ok ((t.erase a).set (.named place) node) :=
    moveOnto_eq_ok_iff.mpr ⟨place, node, named, held, vacant, rfl⟩
  unfold Installed.restore
  rw [moved]

/-- What was moved aside comes back without a trace. -/
theorem agrees_putBack (tree : t.IsTree) (target : String) :
    (putBack t target).2 = [] ∧ Agrees t (putBack t target).1 := by
  unfold putBack
  by_cases file : ∃ place bytes, t.filePlace? target = some place ∧
      t.get? (.named place) = some (.file bytes)
  · obtain ⟨place, bytes, named, there⟩ := file
    have same := sameWays_withAside there
    have vacant : (t.withAside place bytes).isDirectory place = false := by
      rw [same.directories, isDirectory, there]
      simp
    have held : (t.withAside place bytes).get? (t.fresh place.dropLast) = some (.file bytes) := by
      rw [get?_withAside, if_neg (by simp), if_pos rfl]
    rw [moveAside_of_file tree named there]
    simp only [restore_eq ((same.filePlace?_eq target).trans named) vacant held, true_and]
    refine ⟨rfl, ?_⟩
    intro a
    rw [get?_set, get?_erase, get?_withAside]
    by_cases onPlace : a = .named place
    · simp [onPlace, there]
    · by_cases onFresh : a = t.fresh place.dropLast
      · simp [onFresh]
      · simp [onPlace, onFresh]
  · rw [moveAside_of_no_file tree fun place bytes named there => file ⟨place, bytes, named, there⟩]
    exact ⟨rfl, .refl t⟩

/-- An output that cannot be installed is refused also when the way is cleared. -/
theorem install_moveAside_error (tree : t.IsTree) (issued : s.serial < t.unused)
    (unwritten : s.write? t = none) : ∃ cause, s.install (t.moveAside s.target).1 = .error cause := by
  have unwritten' : s.write? (t.moveAside s.target).1 = none := by
    by_cases file : ∃ place bytes, t.filePlace? s.target = some place ∧
        t.get? (.named place) = some (.file bytes)
    · obtain ⟨place, bytes, named, there⟩ := file
      rw [moveAside_of_file tree named there]
      refine (Staged.write?_congr (sameWays_withAside there) fun a temporary => ?_).trans unwritten
      obtain ⟨directory, -, rfl⟩ := Staged.temporary?_eq_some_iff.mp temporary
      rw [get?_withAside, if_neg (by simp), if_neg]
      intro same
      have serial : s.serial = t.freshSerial := (Address.temporary.inj same).2
      rw [serial] at issued
      exact absurd issued (Nat.not_lt.mpr (unused_le_freshSerial t))
    · rw [moveAside_of_no_file tree fun place bytes named there => file ⟨place, bytes, named, there⟩]
      exact unwritten
  cases installed : s.install (t.moveAside s.target).1 with
  | error cause => exact ⟨cause, rfl⟩
  | ok t' =>
    obtain ⟨a, place, node, -, written, -⟩ := Staged.install_eq_ok_iff.mp installed
    rw [unwritten'] at written
    cases written

/-! ### Undoing a move -/

/-- What undoing a move makes of a tree: what was saved is at its place again, or
nothing if nothing was, and the address it was saved to is free. -/
structure Undoes (place : Place) (saved : Option (Address × Node)) (t t' : FileTree) : Prop where
  named : ∀ other, t'.get? (.named other) =
    if other = place then saved.map Prod.snd else t.get? (.named other)
  temporary : ∀ directory serial, t'.get? (.temporary directory serial) =
    if saved.map Prod.fst = some (.temporary directory serial) then none
    else t.get? (.temporary directory serial)
  ways : SameWays t t'
  tree : t'.IsTree

/-- A move that replaced nothing is undone by removing the file. -/
theorem undoes_remove {target : String} {place : Place} {bytes : Bytes} (tree : t.IsTree)
    (named : t.filePlace? target = some place)
    (there : t.get? (.named place) = some (.file bytes)) :
    (Installed.undo t ⟨target, none⟩).2 = [] ∧
      Undoes place none t (Installed.undo t ⟨target, none⟩).1 := by
  have loose : t.get? (.named place) ≠ some .directory := by
    rw [there]
    simp
  simp only [Installed.undo, removeFile_eq_ok tree named there]
  exact ⟨trivial, fun other => by simp, fun d n => by simp, sameWays_erase loose,
    tree.erase loose⟩

/-- A move that replaced a file is undone by moving that file back. -/
theorem undoes_restore {target : String} {place directory : Place} {serial : Nat} {node : Node}
    (tree : t.IsTree) (named : t.filePlace? target = some place)
    (vacant : t.isDirectory place = false)
    (held : t.get? (.temporary directory serial) = some node) :
    (Installed.undo t ⟨target, some (.temporary directory serial)⟩).2 = [] ∧
      Undoes place (some (.temporary directory serial, node)) t
        (Installed.undo t ⟨target, some (.temporary directory serial)⟩).1 := by
  have loose := tree.temporary directory serial
  simp only [Installed.undo, restore_eq named vacant held]
  cases node with
  | directory => exact absurd held loose
  | file bytes =>
    refine ⟨trivial, fun other => by simp, fun d n => ?_, sameWays_move loose vacant bytes,
      tree.move loose vacant (isDirectory_dropLast_of_filePlace? named) bytes⟩
    simp only [get?_set, get?_erase, Option.map_some, Option.some.injEq]
    by_cases own : Address.temporary d n = .temporary directory serial
    · simp [own]
    · rw [if_neg (by simp : ¬ Address.temporary d n = .named place), if_neg own,
        if_neg (Ne.symm own)]

end RefinementTables
