import RefinementTables.FileTree
import RefinementTables.Proofs.Checked
import RefinementTables.Proofs.Text

/-!
Where paths lead.

A walk looks at nothing but directories, so two trees with the same directories
lead every path to the same place. Both the file that a path reads and the place
that a move onto the path fills are given by `filePlace?`:

* `find_file_iff` — a path leads to a file exactly when its file place holds it.
* `moveOnto_eq_ok_iff` — a move succeeds exactly when its source is there and the
  file place of its path is no directory.
* `getLast?_eq_fileName` — the file has the last name of the path, which ends as the
  path does.
* `SameWays.filePlace?_eq`, `SameWays.directoryOf_eq_ok_iff` — both depend on the
  directories alone.
-/

namespace RefinementTables

/-! ### Parts of a path -/

namespace Text

/-- A text whose stretches are all empty holds nothing but separators. -/
theorem eq_separator_of_split_nil {separator : Char} {cs : List Char}
    (empty : ∀ part ∈ split separator cs, part = []) : ∀ c ∈ cs, c = separator := by
  fun_induction split separator cs with
  | case1 => simp
  | case2 cs ih =>
    intro c hc
    rcases List.mem_cons.mp hc with rfl | hc
    · rfl
    · exact ih (fun part hp => empty part (List.mem_cons_of_mem _ hp)) c hc
  | case3 c cs _ h _ => exact absurd h (split_ne_nil separator cs)
  | case4 c cs _ part parts h ih => exact absurd (empty (c :: part) List.mem_cons_self) (by simp)

/-- The last stretch of a text ends as the text does. -/
theorem getLast?_split {separator last : Char} {cs : List Char} (ends : cs.getLast? = some last)
    (different : last ≠ separator) :
    ∃ part, (split separator cs).getLast? = some part ∧ part.getLast? = some last := by
  fun_induction split separator cs with
  | case1 => cases ends
  | case2 cs ih =>
    cases cs with
    | nil => exact absurd (Option.some.inj ends).symm different
    | cons d ds =>
      obtain ⟨part, last_part, part_ends⟩ := ih ends
      refine ⟨part, ?_, part_ends⟩
      rw [List.getLast?_cons, last_part]
      rfl
  | case3 c cs _ h _ => exact absurd h (split_ne_nil separator cs)
  | case4 c cs _ part parts h ih =>
    cases cs with
    | nil =>
      cases h
      exact ⟨[c], rfl, ends⟩
    | cons d ds =>
      obtain ⟨found, last_part, part_ends⟩ := ih ends
      rw [h, List.getLast?_cons] at last_part
      cases parts with
      | nil =>
        cases last_part
        have ends_part : part.getLast? = some last := part_ends
        refine ⟨c :: part, rfl, ?_⟩
        rw [List.getLast?_cons, ends_part]
        rfl
      | cons p ps => exact ⟨found, last_part, part_ends⟩

end Text

/-- A path without any name, if it is not the empty text, ends with a slash. -/
theorem Path.slash_of_parts_nil {path : String} (nonempty : path ≠ "")
    (nameless : (Path.ofText path).parts = []) : (Path.ofText path).slash = true := by
  have separators : ∀ c ∈ path.toList, c = '/' := by
    apply Text.eq_separator_of_split_nil
    intro part hp
    have dropped := List.filter_eq_nil_iff.mp nameless _ (List.mem_map_of_mem hp)
    simpa [String.ofList_eq_empty_iff] using dropped
  cases last : path.toList.getLast? with
  | none => exact absurd (String.toList_eq_nil_iff.mp (List.getLast?_eq_none_iff.mp last)) nonempty
  | some c =>
    have slash := separators c (List.mem_of_getLast? last)
    simp [Path.ofText, last, slash]

/-- The last name of a path that does not end with a slash is its file name, and ends
as the path does. -/
theorem Path.getLast?_parts {path : String} (nonempty : path ≠ "")
    (slash : (Path.ofText path).slash = false) :
    (Path.ofText path).parts.getLast? = some (fileName path) ∧
      (fileName path).toList.getLast? = path.toList.getLast? := by
  cases ends : path.toList.getLast? with
  | none => exact absurd (String.toList_eq_nil_iff.mp (List.getLast?_eq_none_iff.mp ends)) nonempty
  | some c =>
    have different : c ≠ '/' := by
      rintro rfl
      simp [Path.ofText, ends] at slash
    obtain ⟨part, last_part, part_ends⟩ := Text.getLast?_split ends different
    obtain ⟨earlier, parts⟩ := List.getLast?_eq_some_iff.mp last_part
    have kept : String.ofList part ≠ "" := by
      rw [Ne, String.ofList_eq_empty_iff]
      rintro rfl
      cases part_ends
    have name : fileName path = String.ofList part := by
      simp [fileName, Text.splitText, parts]
    rw [name, String.toList_ofList]
    exact ⟨by simp [Path.ofText, Text.splitText, parts, kept], part_ends⟩

namespace FileTree

variable {t t' : FileTree} {path : String} {place directory : Place}

/-! ### Trees with the same directories -/

/-- Two trees in which every walk goes the same way. -/
structure SameWays (t t' : FileTree) : Prop where
  here : t'.here = t.here
  directories : ∀ place, t'.isDirectory place = t.isDirectory place

theorem SameWays.refl (t : FileTree) : SameWays t t := ⟨rfl, fun _ => rfl⟩

theorem SameWays.symm (h : SameWays t t') : SameWays t' t :=
  ⟨h.here.symm, fun place => (h.directories place).symm⟩

theorem SameWays.trans {t₁ t₂ t₃ : FileTree} (h : SameWays t₁ t₂) (h' : SameWays t₂ t₃) :
    SameWays t₁ t₃ :=
  ⟨h'.here.trans h.here, fun place => (h'.directories place).trans (h.directories place)⟩

/-- What is there lies in a directory, and every temporary is a file. -/
structure IsTree (t : FileTree) : Prop where
  parent : ∀ a node, t.get? a = some node → t.isDirectory (parentOf a) = true
  temporary : ∀ directory serial, t.get? (.temporary directory serial) ≠ some .directory

theorem isDirectory_iff : t.isDirectory place = true ↔ t.get? (.named place) = some .directory := by
  simp [isDirectory]

/-- A tree can be checked node by node. -/
theorem isTree_of_nodes
    (parents : ∀ entry ∈ t.nodes, t.isDirectory (parentOf entry.1) = true)
    (named : ∀ entry ∈ t.nodes, entry.2 = .directory → serialAbove entry.1 = 0) : t.IsTree := by
  have member : ∀ a node, t.get? a = some node → (a, node) ∈ t.nodes := by
    intro a node there
    obtain ⟨first, last, split, -⟩ := List.lookup_eq_some_iff.mp there
    rw [split]
    simp
  refine ⟨fun a node there => parents _ (member a node there), ?_⟩
  intro directory serial there
  exact absurd (named _ (member _ _ there) rfl) (Nat.succ_ne_zero serial)

/-- Above a directory there is a directory. -/
theorem IsTree.above (tree : t.IsTree) (there : t.isDirectory place = true) :
    t.isDirectory place.dropLast = true :=
  tree.parent (.named place) .directory (isDirectory_iff.mp there)

/-! ### Walks -/

theorem enter_eq_ok_iff {found : Place} {name : String} :
    t.enter place name = .ok found ↔
      t.isDirectory place = true ∧ name.utf8ByteSize ≤ nameLimit ∧ found = below place name := by
  unfold enter isDirectory
  cases t.get? (.named place) with
  | none => simp
  | some node =>
    cases node with
    | file bytes => simp
    | directory =>
      simp only [decide_true, true_and]
      split
      · next long => simp [Nat.not_le.mpr long]
      · next short => simp [Nat.le_of_not_lt short, eq_comm]

theorem walk_cons_eq_ok_iff {found : Place} {name : String} {names : List String} :
    (name :: names).foldlM t.enter place = .ok found ↔
      ∃ next, t.enter place name = .ok next ∧ names.foldlM t.enter next = .ok found := by
  rw [List.foldlM_cons, bind_eq_ok_iff]

theorem walk_snoc_eq_ok_iff {found : Place} {name : String} {names : List String} :
    (names ++ [name]).foldlM t.enter place = .ok found ↔
      ∃ last, names.foldlM t.enter place = .ok last ∧ t.enter last name = .ok found := by
  rw [List.foldlM_append, bind_eq_ok_iff]
  simp

/-- A stay at the end of a walk asks that a directory was reached. -/
theorem walk_stay_eq_ok_iff {found : Place} {names : List String} :
    (names ++ ["."]).foldlM t.enter place = .ok found ↔
      names.foldlM t.enter place = .ok found ∧ t.isDirectory found = true := by
  rw [walk_snoc_eq_ok_iff]
  constructor
  · rintro ⟨last, walked, entered⟩
    obtain ⟨there, -, rfl⟩ := enter_eq_ok_iff.mp entered
    exact ⟨walked, there⟩
  · rintro ⟨walked, there⟩
    exact ⟨found, walked, enter_eq_ok_iff.mpr ⟨there, by decide, rfl⟩⟩

theorem SameWays.walk_eq_ok_iff (same : SameWays t t') {found : Place} {names : List String} :
    names.foldlM t'.enter place = .ok found ↔ names.foldlM t.enter place = .ok found := by
  induction names generalizing place with
  | nil => exact Iff.rfl
  | cons name names ih =>
    simp only [walk_cons_eq_ok_iff, enter_eq_ok_iff, same.directories, ih]

theorem SameWays.start_eq (same : SameWays t t') (p : Path) : t'.start p = t.start p := by
  unfold start
  rw [same.here]

/-! ### The directory of a new file -/

theorem destination_eq_ok_iff {name : String} :
    t.destination path = .ok (directory, name) ↔
      checkPath path = .ok () ∧ (Path.ofText path).parts.getLast? = some name ∧
        name ≠ "." ∧ name ≠ ".." ∧
        (Path.ofText path).parts.dropLast.foldlM t.enter (t.start (Path.ofText path)) =
          .ok directory ∧ t.isDirectory directory = true := by
  unfold destination
  rw [bind_eq_ok_iff]
  constructor
  · rintro ⟨⟨⟩, checked, h⟩
    simp only at h
    cases last : (Path.ofText path).parts.getLast? with
    | none =>
      rw [last] at h
      cases h
    | some found =>
      simp only [last, bind_eq_ok_iff, walk_stay_eq_ok_iff] at h
      obtain ⟨place, ⟨walked, there⟩, h⟩ := h
      by_cases special : found = "." ∨ found = ".."
      · rw [if_pos (by simpa using special)] at h
        cases h
      · rw [if_neg (by simpa using special)] at h
        cases h
        rw [not_or] at special
        exact ⟨checked, rfl, special.1, special.2, walked, there⟩
  · rintro ⟨checked, last, notStay, notUp, walked, there⟩
    refine ⟨(), checked, ?_⟩
    simp only [last, bind_eq_ok_iff, walk_stay_eq_ok_iff]
    refine ⟨directory, ⟨walked, there⟩, ?_⟩
    rw [if_neg (by simp [notStay, notUp])]
    rfl

theorem SameWays.directoryOf_eq_ok_iff (same : SameWays t t') :
    t'.directoryOf path = .ok directory ↔ t.directoryOf path = .ok directory := by
  simp only [directoryOf, same.here, same.start_eq]
  split
  · exact Iff.rfl
  · exact same.walk_eq_ok_iff

/-- The directory of a new temporary is one. -/
theorem isDirectory_of_directoryOf (h : t.directoryOf path = .ok directory) :
    t.isDirectory directory = true := by
  simp only [directoryOf] at h
  split at h
  · cases h
  · exact (walk_stay_eq_ok_iff.mp h).2

/-! ### The file of a path -/

/-- The place of the file that a path names, whether the file is there or not. -/
def filePlace? (t : FileTree) (path : String) : Option Place :=
  match t.destination path with
  | .error _ => none
  | .ok (directory, name) =>
    if name.utf8ByteSize ≤ nameLimit ∧ (Path.ofText path).slash = false then
      some (directory ++ [name])
    else none

theorem filePlace?_eq_some_iff :
    t.filePlace? path = some place ↔
      ∃ directory name, t.destination path = .ok (directory, name) ∧
        name.utf8ByteSize ≤ nameLimit ∧ (Path.ofText path).slash = false ∧
        place = directory ++ [name] := by
  unfold filePlace?
  constructor
  · intro h
    split at h
    · cases h
    · next directory name reached =>
      split at h
      · next fits =>
        exact ⟨directory, name, reached, fits.1, fits.2, (Option.some.inj h).symm⟩
      · cases h
  · rintro ⟨directory, name, reached, short, slash, rfl⟩
    simp only [reached]
    exact if_pos ⟨short, slash⟩

theorem SameWays.filePlace?_eq (same : SameWays t t') (path : String) :
    t'.filePlace? path = t.filePlace? path := by
  apply Option.ext
  intro place
  simp only [filePlace?_eq_some_iff, destination_eq_ok_iff, same.walk_eq_ok_iff, same.start_eq,
    same.directories]

/-- The file of a path lies in a directory. -/
theorem isDirectory_dropLast_of_filePlace? (h : t.filePlace? path = some place) :
    t.isDirectory place.dropLast = true := by
  obtain ⟨directory, name, reached, -, -, rfl⟩ := filePlace?_eq_some_iff.mp h
  rw [List.dropLast_concat]
  exact (destination_eq_ok_iff.mp reached).2.2.2.2.2

/-- The file of a path has the file name of the path. -/
theorem getLast?_eq_fileName (h : t.filePlace? path = some place) :
    place.getLast? = some (fileName path) ∧
      (fileName path).toList.getLast? = path.toList.getLast? := by
  obtain ⟨directory, name, reached, -, slash, rfl⟩ := filePlace?_eq_some_iff.mp h
  obtain ⟨checked, last, -⟩ := destination_eq_ok_iff.mp reached
  have nonempty : path ≠ "" := by
    rintro rfl
    cases checked
  obtain ⟨named, ends⟩ := Path.getLast?_parts nonempty slash
  rw [last] at named
  rw [List.getLast?_concat, named]
  exact ⟨rfl, ends⟩

/-- Paths that end differently name different files. -/
theorem filePlace?_ne {path' : String} (different : path.toList.getLast? ≠ path'.toList.getLast?)
    (h : t.filePlace? path = some place) : t.filePlace? path' ≠ some place := by
  intro h'
  obtain ⟨last, ends⟩ := getLast?_eq_fileName h
  obtain ⟨last', ends'⟩ := getLast?_eq_fileName h'
  have same : fileName path = fileName path' := Option.some.inj (last.symm.trans last')
  rw [same] at ends
  exact different (ends.symm.trans ends')

theorem checkPath_of_filePlace? (h : t.filePlace? path = some place) :
    checkPath path = .ok () := by
  obtain ⟨directory, name, reached, -⟩ := filePlace?_eq_some_iff.mp h
  exact (destination_eq_ok_iff.mp reached).1

theorem find_eq_ok_iff {node : Node} :
    t.find path = .ok (place, node) ↔
      checkPath path = .ok () ∧
        (Path.ofText path).steps.foldlM t.enter (t.start (Path.ofText path)) = .ok place ∧
        t.get? (.named place) = some node := by
  unfold find
  simp only [bind_eq_ok_iff]
  constructor
  · rintro ⟨⟨⟩, checked, found, walked, h⟩
    cases there : t.get? (.named found) with
    | none =>
      rw [there] at h
      cases h
    | some node' =>
      rw [there] at h
      cases h
      exact ⟨checked, walked, there⟩
  · rintro ⟨checked, walked, there⟩
    refine ⟨(), checked, place, walked, ?_⟩
    rw [there]
    rfl

/-- What is at the file place of a path is what the path leads to. -/
theorem find_of_filePlace? {node : Node} (named : t.filePlace? path = some place)
    (held : t.get? (.named place) = some node) : t.find path = .ok (place, node) := by
  obtain ⟨directory, name, reached, short, slash, rfl⟩ := filePlace?_eq_some_iff.mp named
  obtain ⟨checked, last, notStay, notUp, walked, there⟩ := destination_eq_ok_iff.mp reached
  refine find_eq_ok_iff.mpr ⟨checked, ?_, held⟩
  obtain ⟨names, parts⟩ := List.getLast?_eq_some_iff.mp last
  rw [Path.steps, slash, if_neg (by simp), List.append_nil, parts, walk_snoc_eq_ok_iff]
  rw [parts, List.dropLast_concat] at walked
  exact ⟨directory, walked, enter_eq_ok_iff.mpr ⟨there, short, by simp [below, notStay, notUp]⟩⟩

/-- What a path leads to is a file exactly when the file place of the path holds
one. A walk that ends with a stay or a step up ends in a directory. -/
theorem find_file_iff (tree : t.IsTree) {bytes : Bytes} :
    t.find path = .ok (place, .file bytes) ↔
      t.filePlace? path = some place ∧ t.get? (.named place) = some (.file bytes) := by
  rw [find_eq_ok_iff, filePlace?_eq_some_iff]
  constructor
  · rintro ⟨checked, walked, held⟩
    have noDirectory : t.isDirectory place ≠ true := by
      rw [Ne, isDirectory_iff, held]
      simp
    refine ⟨?_, held⟩
    cases slash : (Path.ofText path).slash with
    | true =>
      rw [Path.steps, slash, if_pos rfl, walk_stay_eq_ok_iff] at walked
      exact absurd walked.2 noDirectory
    | false =>
      have nonempty : path ≠ "" := by
        rintro rfl
        cases checked
      rw [Path.steps, slash, if_neg (by simp), List.append_nil] at walked
      cases last : (Path.ofText path).parts.getLast? with
      | none =>
        have nameless := List.getLast?_eq_none_iff.mp last
        rw [Path.slash_of_parts_nil nonempty nameless] at slash
        cases slash
      | some name =>
        obtain ⟨names, parts⟩ := List.getLast?_eq_some_iff.mp last
        rw [parts, walk_snoc_eq_ok_iff] at walked
        obtain ⟨directory, before, entered⟩ := walked
        obtain ⟨there, short, rfl⟩ := enter_eq_ok_iff.mp entered
        have notStay : name ≠ "." := by
          rintro rfl
          exact noDirectory there
        have notUp : name ≠ ".." := by
          rintro rfl
          exact noDirectory (tree.above there)
        refine ⟨directory, name, ?_, short, rfl, by simp [below, notStay, notUp]⟩
        exact destination_eq_ok_iff.mpr
          ⟨checked, last, notStay, notUp, by simpa [parts] using before, there⟩
  · rintro ⟨named, held⟩
    exact (find_eq_ok_iff.mp (find_of_filePlace? (filePlace?_eq_some_iff.mpr named) held))

end FileTree

end RefinementTables
