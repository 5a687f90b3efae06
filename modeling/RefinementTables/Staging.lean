import RefinementTables.Event
import RefinementTables.FileTree

/-!
Outputs that appear together or not at all.

An output is first staged: written to a temporary beside its target, and dropped
again when its filling fails. Committing moves every staged file onto its target,
in staging order. A file that is already there is moved aside before; when one
move fails, every target is put back, in the order in which they were moved, and
the temporaries are removed.
-/

namespace RefinementTables

/-- The path that a filled temporary is for, and its serial number. The temporary
was made in the directory that the path led to, and is found again by way of the
path. -/
structure Staged where
  target : String
  serial : Nat
deriving DecidableEq, Repr

namespace Staged

/-- The address of the temporary, if the way to it is still there. -/
def address (s : Staged) (t : FileTree) : Except SystemFault Address :=
  (t.directoryOf s.target).map fun directory => .temporary directory s.serial

/-- Moves the temporary onto its target. What is wrong with the text of the target
is found before the temporary is looked for. -/
def install (s : Staged) (t : FileTree) : Except SystemFault FileTree := do
  if '\x00' ∈ s.target.toList then throw .invalidArgument
  checkPath s.target
  let temporary ← s.address t
  t.moveOnto temporary s.target

/-- Removes the temporary. One that cannot be reached stays. -/
def drop (s : Staged) (t : FileTree) : FileTree :=
  match s.address t with
  | .ok temporary => t.erase temporary
  | .error _ => t

end Staged

/-- The outputs staged so far. -/
abbrev Batch := List Staged

/-- What a filling has written, its result or the fault that stopped it, and what
it has reported. -/
structure Filling (α : Type) where
  bytes : Bytes
  result : Except Fault α
  events : List Event

/-- What staging an output leaves. -/
structure Staging (α : Type) where
  result : Except Fault α
  batch : Batch
  tree : FileTree
  events : List Event

namespace Batch

/-- Stages one output. Without a directory for the temporary nothing is filled
and nothing reported. -/
def stage {α : Type} (batch : Batch) (t : FileTree) (target : String) (filling : Filling α) :
    Staging α :=
  match t.directoryOf target with
  | .error cause => ⟨.error (.io (.staging target cause)), batch, t, []⟩
  | .ok directory =>
    let (made, serial) := t.createTemporary directory filling.bytes
    let staged : Staged := ⟨target, serial⟩
    match filling.result with
    | .error fault => ⟨.error fault, batch, staged.drop made, filling.events⟩
    | .ok a => ⟨.ok a, batch ++ [staged], made, filling.events⟩

/-- Drops a batch: its temporaries go. -/
def drop (batch : Batch) (t : FileTree) : FileTree :=
  batch.foldl (fun t staged => staged.drop t) t

end Batch

/-! ### Committing -/

/-- A target that a commit has reached, and where the file that was there before
has been moved. -/
structure Installed where
  target : String
  previous : Option Address
deriving DecidableEq, Repr

/-- What a commit leaves: the targets or the fault, the tree, and what could not
be put back. -/
structure Committed where
  result : Except Fault (List String)
  tree : FileTree
  events : List Event

namespace Installed

/-- A warning about a path, with the cause. -/
def failure (message path : String) (cause : SystemFault) : Event :=
  ⟨.warning, message, [("path", path), ("error", cause.message)]⟩

/-- Puts a file that was moved aside back onto its target. -/
def restore (t : FileTree) (target : String) (previous : Address) : FileTree × List Event :=
  match t.moveOnto previous target with
  | .ok t => (t, [])
  | .error cause =>
    (t.erase previous, [failure "could not restore previous output" target cause])

/-- Undoes one move: the file that was there before comes back, or the new one is
removed. -/
def undo (t : FileTree) (done : Installed) : FileTree × List Event :=
  match done.previous with
  | some previous => restore t done.target previous
  | none =>
    match t.removeFile done.target with
    | .ok t => (t, [])
    | .error cause => (t, [failure "could not remove output" done.target cause])

/-- Undoes moves in the order in which they were made. -/
def undoAll : List Installed → FileTree → FileTree × List Event
  | [], t => (t, [])
  | done :: rest, t =>
    let (t, first) := undo t done
    let (t, later) := undoAll rest t
    (t, first ++ later)

/-- Drops the files that were moved aside. -/
def discard (done : List Installed) (t : FileTree) : FileTree :=
  done.foldl (fun t d => d.previous.elim t t.erase) t

end Installed

namespace Batch

/-- Moves the staged files onto their targets, after those in `done`. -/
def install (done : List Installed) : Batch → FileTree → Committed
  | [], t => ⟨.ok (done.map Installed.target), Installed.discard done t, []⟩
  | staged :: rest, t =>
    let (aside, previous) := t.moveAside staged.target
    match staged.install aside with
    | .ok t => install (done ++ [⟨staged.target, previous⟩]) rest t
    | .error cause =>
      let (t, first) :=
        match previous with
        | some previous => Installed.restore aside staged.target previous
        | none => (aside, [])
      let (t, later) := Installed.undoAll done t
      ⟨.error (.io (.install staged.target cause)), drop (staged :: rest) t, first ++ later⟩

/-- Moves every staged file onto its target, or leaves all targets as they
were. -/
def commit (batch : Batch) (t : FileTree) : Committed :=
  install [] batch t

end Batch

end RefinementTables
