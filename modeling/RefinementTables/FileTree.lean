import RefinementTables.Fault
import RefinementTables.Text.Bytes

/-!
A tree of files and directories, as a value.

The tree maps addresses to nodes. A named address is a place, the list of names
from the root; a temporary one belongs to a directory and has a serial number,
so that no name a user can write is ever the name of a temporary. Paths are
texts: a path is taken to be valid Unicode, and a name that is none has no place
in the tree. Walking along a path checks that every place on the way is a
directory.

The operations are those that a run needs: reading a file, making a temporary,
moving a temporary onto a path, moving a file aside, and removing. `get?` is the
view in which all of them are described:

* `get?_set`, `get?_erase` — a change at one address is seen at that address only.
* `get?_freshSerial` — a new temporary never takes the place of another node.
-/

namespace RefinementTables

/-- A place in the tree: the names from the root to it. -/
abbrev Place := List String

inductive Address where
  | named (place : Place)
  | temporary (directory : Place) (serial : Nat)
deriving DecidableEq, Repr

inductive Node where
  | directory
  | file (bytes : Bytes)
deriving DecidableEq, Repr

/-- Files and directories below a root, the directory in which relative paths
start, and a serial number above those of all temporaries that ever were. -/
structure FileTree where
  here : Place
  nodes : List (Address × Node)
  unused : Nat
deriving Repr

/-! ### Paths -/

/-- A path as a walk: where it starts, the names to enter, and whether it ends
with a slash. -/
structure Path where
  absolute : Bool
  parts : List String
  slash : Bool
deriving DecidableEq, Repr

namespace Path

def ofText (text : String) : Path where
  absolute := text.toList.head? = some '/'
  parts := (Text.splitText '/' text).filter fun part => part ≠ ""
  slash := text.toList.getLast? = some '/'

/-- The names of a path, with a stay at the end where a slash asks that what was
reached is a directory. -/
def steps (p : Path) : List String :=
  p.parts ++ if p.slash then ["."] else []

end Path

/-- The most bytes of a name, and of a path with the end of the text. -/
def nameLimit : Nat := 255

def pathLimit : Nat := 4096

/-- Refuses a text that cannot be a path at all. -/
def checkPath (path : String) : Except SystemFault Unit :=
  if path = "" then .error .noEntry
  else if '\x00' ∈ path.toList then .error .endedName
  else if pathLimit ≤ path.utf8ByteSize then .error .nameTooLong
  else .ok ()

/-- A path without its last name, and without what a walk along it would pass
over there. It is empty for a file in the starting directory or in the root. -/
def parentPath (path : String) : String :=
  let idle := fun part => part = "" || part = "."
  let named := (Text.splitText '/' path).reverse.dropWhile idle
  "/".intercalate ((named.drop 1).dropWhile idle).reverse

/-- The path from the root of a temporary beside a path. All names of temporaries
are as long as the one given here. -/
def temporaryPath (here : Place) (path : String) : String :=
  let parent := parentPath path
  let steps :=
    if (Path.ofText path).absolute then [parent]
    else "" :: here ++ [if parent = "" then "." else parent]
  "/".intercalate (steps ++ [".tmp000000"])

/-- The last name of a path. -/
def fileName (path : String) : String :=
  (Text.splitText '/' path).getLast?.getD path

namespace FileTree

/-! ### The map -/

def get? (t : FileTree) (a : Address) : Option Node :=
  t.nodes.lookup a

/-- The tree with a node at an address. -/
def set (t : FileTree) (a : Address) (n : Node) : FileTree :=
  { t with nodes := (a, n) :: t.nodes.filter fun entry => entry.1 ≠ a }

/-- The tree without the node at an address. -/
def erase (t : FileTree) (a : Address) : FileTree :=
  { t with nodes := t.nodes.filter fun entry => entry.1 ≠ a }

theorem lookup_filter_ne (a b : Address) (entries : List (Address × Node)) :
    (entries.filter fun entry => entry.1 ≠ a).lookup b =
      if b = a then none else entries.lookup b := by
  induction entries with
  | nil => simp
  | cons entry rest ih =>
    obtain ⟨name, node⟩ := entry
    by_cases ha : name = a
    · subst ha
      rw [List.filter_cons_of_neg (by simp), ih]
      by_cases hb : b = name
      · simp [hb]
      · simp [hb, List.lookup_cons, beq_false_of_ne hb]
    · rw [List.filter_cons_of_pos (by simpa using ha)]
      by_cases hb : b = name
      · subst hb
        simp [ha]
      · rw [List.lookup_cons, List.lookup_cons, beq_false_of_ne hb, ih]

/-- Setting a node changes what is at its address and nothing else. -/
@[simp] theorem get?_set (t : FileTree) (a b : Address) (n : Node) :
    (t.set a n).get? b = if b = a then some n else t.get? b := by
  by_cases h : b = a
  · subst h
    simp [get?, set]
  · rw [get?, set, List.lookup_cons, beq_false_of_ne h, lookup_filter_ne, if_neg h, if_neg h, get?]

/-- Erasing empties one address and no other. -/
@[simp] theorem get?_erase (t : FileTree) (a b : Address) :
    (t.erase a).get? b = if b = a then none else t.get? b :=
  lookup_filter_ne a b t.nodes

/-- Whether a place is a directory. -/
def isDirectory (t : FileTree) (place : Place) : Bool :=
  t.get? (.named place) = some .directory

/-! ### Walking -/

/-- The place that a name in a directory leads to. -/
def below (place : Place) (name : String) : Place :=
  if name = "." then place else if name = ".." then place.dropLast else place ++ [name]

/-- One step into a directory. -/
def enter (t : FileTree) (place : Place) (name : String) : Except SystemFault Place :=
  match t.get? (.named place) with
  | none => .error .noEntry
  | some (.file _) => .error .notDirectory
  | some .directory =>
    if nameLimit < name.utf8ByteSize then .error .nameTooLong else .ok (below place name)

/-- Where a path starts. -/
def start (t : FileTree) (p : Path) : Place :=
  if p.absolute then [] else t.here

/-- The place that a path leads to, and what is there. -/
def find (t : FileTree) (path : String) : Except SystemFault (Place × Node) := do
  checkPath path
  let p := Path.ofText path
  let place ← p.steps.foldlM t.enter (t.start p)
  match t.get? (.named place) with
  | none => throw .noEntry
  | some node => pure (place, node)

/-- The directory and the name that a path gives for a new file. The directory is
there; the name may be too long for it. -/
def destination (t : FileTree) (path : String) : Except SystemFault (Place × String) := do
  checkPath path
  let p := Path.ofText path
  match p.parts.getLast? with
  | none => throw .busy
  | some name =>
    let directory ← (p.parts.dropLast ++ ["."]).foldlM t.enter (t.start p)
    if name = "." || name = ".." then throw .busy
    pure (directory, name)

/-- The directory that holds what a path names, as far as the path tells. The
path of a temporary in it, from the root, has to keep to the limit. -/
def directoryOf (t : FileTree) (path : String) : Except SystemFault Place :=
  let p := Path.ofText path
  let parts := p.parts.filter fun part => part ≠ "."
  let start := if parts = [] then t.here else t.start p
  if pathLimit ≤ (temporaryPath t.here path).utf8ByteSize then .error .nameTooLong
  else (parts.dropLast ++ ["."]).foldlM t.enter start

/-! ### Temporaries -/

/-- A serial number above that of an address. -/
def serialAbove : Address → Nat
  | .named _ => 0
  | .temporary _ serial => serial + 1

/-- A serial number that no temporary has or had. -/
def freshSerial (t : FileTree) : Nat :=
  t.nodes.foldl (fun n entry => max n (serialAbove entry.1)) t.unused

theorem foldl_serialAbove_ge (nodes : List (Address × Node)) (n : Nat) :
    n ≤ nodes.foldl (fun n entry => max n (serialAbove entry.1)) n ∧
      ∀ entry ∈ nodes,
        serialAbove entry.1 ≤ nodes.foldl (fun n entry => max n (serialAbove entry.1)) n := by
  induction nodes generalizing n with
  | nil => simp
  | cons head rest ih =>
    obtain ⟨start, members⟩ := ih (max n (serialAbove head.1))
    refine ⟨Nat.le_trans (Nat.le_max_left ..) start, fun entry h => ?_⟩
    rcases List.mem_cons.mp h with rfl | h
    · exact Nat.le_trans (Nat.le_max_right ..) start
    · exact members entry h

/-- In no directory is there a temporary with the fresh serial number. -/
theorem get?_freshSerial (t : FileTree) (directory : Place) :
    t.get? (.temporary directory t.freshSerial) = none := by
  rw [get?, List.lookup_eq_none_iff]
  intro entry h
  have bound : serialAbove entry.1 ≤ t.freshSerial :=
    (foldl_serialAbove_ge t.nodes t.unused).2 entry h
  rw [bne_iff_ne]
  intro same
  rw [← same] at bound
  exact absurd bound (Nat.not_succ_le_self _)

/-- The tree with a new temporary in a directory, and its serial number. -/
def createTemporary (t : FileTree) (directory : Place) (bytes : Bytes) : FileTree × Nat :=
  let serial := t.freshSerial
  ({ t.set (.temporary directory serial) (.file bytes) with unused := serial + 1 }, serial)

/-! ### Moving and removing -/

/-- Moves what is at an address onto a path, in the place of a file that is
there. A directory is not replaced, and a path that ends with a slash names no
file. -/
def moveOnto (t : FileTree) (source : Address) (path : String) : Except SystemFault FileTree := do
  let (directory, name) ← t.destination path
  match t.get? source with
  | none => throw .noEntry
  | some node =>
    if nameLimit < name.utf8ByteSize then throw .nameTooLong
    if (Path.ofText path).slash then throw .notDirectory
    if t.isDirectory (directory ++ [name]) then throw .isDirectory
    pure ((t.erase source).set (.named (directory ++ [name])) node)

/-- Moves the file at a path to a new temporary beside it, if there is one. -/
def moveAside (t : FileTree) (path : String) : FileTree × Option Address :=
  match t.find path with
  | .ok (place, .file bytes) =>
    let (made, serial) := t.createTemporary place.dropLast bytes
    (made.erase (.named place), some (.temporary place.dropLast serial))
  | _ => (t, none)

/-- Removes the file at a path. -/
def removeFile (t : FileTree) (path : String) : Except SystemFault FileTree := do
  match ← t.find path with
  | (place, .file _) => pure (t.erase (.named place))
  | (_, .directory) => throw .isDirectory

/-! ### Growing and listing trees -/

/-- The directory in which an address lies. -/
def parentOf : Address → Place
  | .named place => place.dropLast
  | .temporary directory _ => directory

/-- The tree with a directory at a place, if nothing is there. -/
def ensure (t : FileTree) (place : Place) : FileTree :=
  match t.get? (.named place) with
  | some _ => t
  | none => t.set (.named place) .directory

/-- The tree with all directories that a walk from a place enters. -/
def withWalk (t : FileTree) (place : Place) : List String → FileTree
  | [] => t.ensure place
  | name :: names => (t.ensure place).withWalk (below place name) names

/-- The tree with a directory at a path below the start. -/
def withDirectory (t : FileTree) (path : String) : FileTree :=
  t.withWalk t.here (Path.ofText path).parts

/-- The place of a path below the start. -/
def placeOf (t : FileTree) (path : String) : Place :=
  (Path.ofText path).parts.foldl below t.here

/-- The tree with a file at a path below the start. -/
def withFile (t : FileTree) (path : String) (bytes : Bytes) : FileTree :=
  (t.withWalk t.here (Path.ofText path).parts.dropLast).set (.named (t.placeOf path)) (.file bytes)

/-- The tree without a place and all that is below it. -/
def without (t : FileTree) (path : String) : FileTree :=
  let place := t.placeOf path
  { t with nodes := t.nodes.filter fun entry =>
      entry.1 ≠ .named place && !place.isPrefixOf (parentOf entry.1) }

/-- The tree with nothing but the way to its starting directory. -/
def bare (here : Place) : FileTree :=
  withWalk ⟨here, [], 0⟩ [] here

/-- The tree with some directories and files. -/
def ofEntries (here : Place) (directories : List String) (files : List (String × Bytes)) :
    FileTree :=
  files.foldl (fun t (path, bytes) => t.withFile path bytes)
    (directories.foldl withDirectory (bare here))

/-- The places below the starting directory, by their path from it. -/
def listing (t : FileTree) : List (Place × Node) :=
  t.nodes.filterMap fun
    | (.named place, node) =>
      if t.here.isPrefixOf place && t.here ≠ place then some (place.drop t.here.length, node)
      else none
    | (.temporary .., _) => none

/-- How many temporaries there are below a place. -/
def temporaries (t : FileTree) (place : Place) : Nat :=
  t.nodes.countP fun
    | (.temporary directory _, _) => place.isPrefixOf directory
    | (.named _, _) => false

end FileTree

end RefinementTables
