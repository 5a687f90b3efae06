import Mathlib.Data.Finset.Card
import RefinementTables.Proofs.Row

/-!
Rows by their history.

A row is changed in three ways: it is made anew from pairs, a cell is inserted, or it
is given a location. What it holds is settled by the insertions since it was last made
anew.

* `cells_built` — after any changes a row has the cells of a row made of these
  insertions, for every change keeps it so (`cells_on`).
* `pairwise_eraseDups` — names without their repetitions stand in the order in which
  each came first.
* `get?_ofPairs_eq_some_iff` — of the cells that were inserted under one name the last
  one is found.
* `getElem?_put` — an insertion leaves every other cell where it is.
* `built_reflects` — so the columns of a row, what is found under them and how many
  there are can be read off its history.
-/

namespace RefinementTables.Row

/-! ### Changes -/

/-- A change of a row. -/
inductive Change where
  | ofPairs (pairs : List (String × Cell))
  | insert (column : String) (cell : Cell)
  | located (location : Location)
deriving DecidableEq, Repr

/-- The row behind a change. -/
def Change.on (r : Row) : Change → Row
  | ofPairs pairs => Row.ofPairs pairs
  | insert column cell => r.insert column cell
  | located location => r.located location

/-- The insertions since a row was last made anew, behind a change. -/
def Change.log (past : List (String × Cell)) : Change → List (String × Cell)
  | ofPairs pairs => pairs
  | insert column cell => past ++ [(column, cell)]
  | located _ => past

/-- What changes make of an empty row. -/
def built (changes : List Change) : Row :=
  changes.foldl Change.on empty

/-- The insertions, oldest first, since the last of the changes that makes a row anew. -/
def inserted (changes : List Change) : List (String × Cell) :=
  changes.foldl Change.log []

/-- A change keeps the cells of a row what its insertions make. -/
theorem cells_on {r : Row} {past : List (String × Cell)} (made : r.cells = (ofPairs past).cells)
    (change : Change) : (change.on r).cells = (ofPairs (change.log past)).cells := by
  cases change with
  | ofPairs pairs => rfl
  | insert column cell =>
    have later : ofPairs (past ++ [(column, cell)]) = (ofPairs past).insert column cell := by
      rw [ofPairs, List.foldl_append]
      rfl
    rw [Change.on, Change.log, later, insert, insert, made]
  | located location => exact made

/-- So do any changes. -/
theorem cells_built (changes : List Change) :
    (built changes).cells = (ofPairs (inserted changes)).cells := by
  have run : ∀ {r : Row} {past : List (String × Cell)}, r.cells = (ofPairs past).cells →
      (changes.foldl Change.on r).cells = (ofPairs (changes.foldl Change.log past)).cells := by
    induction changes with
    | nil => exact id
    | cons change changes ih => exact fun made => ih (cells_on made change)
  exact run rfl

/-! ### Order -/

/-- Names without their repetitions stand in the order in which each came first. -/
theorem pairwise_eraseDups (names : List String) :
    names.eraseDups.Pairwise fun a b => names.idxOf a < names.idxOf b := by
  induction names using List.reverseRecOn with
  | nil => exact .nil
  | append_singleton names name ih =>
    have earlier : ∀ a ∈ names.eraseDups, (names ++ [name]).idxOf a = names.idxOf a :=
      fun a mem => List.idxOf_append_of_mem (List.mem_eraseDups.mp mem)
    have kept : names.eraseDups.Pairwise fun a b =>
        (names ++ [name]).idxOf a < (names ++ [name]).idxOf b := by
      refine ih.imp_of_mem fun ha hb before => ?_
      rwa [earlier _ ha, earlier _ hb]
    by_cases there : name ∈ names
    · have nothing_new : ([name].removeAll names).eraseDups = [] := by simp [List.removeAll, there]
      rwa [List.eraseDups_append, nothing_new, List.append_nil]
    · have new : ([name].removeAll names).eraseDups = [name] := by
        simp [List.removeAll, there, List.eraseDups_cons]
      rw [List.eraseDups_append, new]
      refine List.pairwise_append.mpr ⟨kept, List.pairwise_singleton _ _, fun a ha b hb => ?_⟩
      rw [List.mem_singleton.mp hb, earlier a ha, List.idxOf_append_of_notMem there]
      exact Nat.lt_add_right _ (List.idxOf_lt_length_of_mem (List.mem_eraseDups.mp ha))

/-! ### Cells -/

/-- Under each name a row made of pairs holds the last cell of this name. -/
theorem get?_ofPairs_eq_some_iff {pairs : List (String × Cell)} {name : String} {cell : Cell} :
    (ofPairs pairs).get? name = some cell ↔
      ∃ before after, pairs = before ++ (name, cell) :: after ∧ name ∉ after.map Prod.fst := by
  rw [ofPairs, get?_foldl_insert, show empty.get? name = none from rfl, Option.or_none,
    List.lookup_eq_some_iff]
  constructor
  · rintro ⟨after, before, reversed, others⟩
    refine ⟨before.reverse, after.reverse, ?_, ?_⟩
    · rw [← List.reverse_reverse pairs, reversed]
      simp
    · intro mem
      obtain ⟨entry, of_after, rfl⟩ := List.mem_map.mp mem
      exact bne_iff_ne.mp (others entry (List.mem_reverse.mp of_after)) rfl
  · rintro ⟨before, after, rfl, last⟩
    refine ⟨after.reverse, before.reverse, by simp, fun entry of_after => bne_iff_ne.mpr ?_⟩
    rintro rfl
    exact last (List.mem_map_of_mem (List.mem_reverse.mp of_after))

/-- An insertion leaves every cell with another name as it is, and in its place. -/
theorem getElem?_put {column name : String} (other : name ≠ column) (cell old : Cell)
    (cells : List (String × Cell)) (i : Nat) :
    (put column cell cells)[i]? = some (name, old) ↔ cells[i]? = some (name, old) := by
  induction cells generalizing i with
  | nil => cases i <;> simp [put, Ne.symm other]
  | cons entry rest ih =>
    obtain ⟨first, there⟩ := entry
    by_cases same : first = column
    · subst same
      cases i <;> simp [put, Ne.symm other]
    · rw [put, if_neg same]
      cases i with
      | zero => rfl
      | succ i => exact ih i

/-! ### What a history leaves -/

/-- What any changes make of an empty row, in terms of the insertions since the last of
them that makes it anew. Its columns are the names that were inserted, once each, in the
order in which they first were. Under a name it holds the cell that was last inserted
there, and nothing if none was; and it has as many cells as there are names. One more
insertion changes no other cell, the place of none, and not the origin. -/
theorem built_reflects (changes : List Change) :
    let r := built changes
    let names := (inserted changes).map Prod.fst
    r.columns.Nodup ∧ (∀ name, name ∈ r.columns ↔ name ∈ names) ∧
      r.columns.Pairwise (fun a b => names.idxOf a < names.idxOf b) ∧
    (∀ name cell, r.get? name = some cell ↔ ∃ before after,
      inserted changes = before ++ (name, cell) :: after ∧ name ∉ after.map Prod.fst) ∧
    (∀ name, r.get? name = none ↔ name ∉ names) ∧
    r.width = names.toFinset.card ∧
    ∀ column cell, (r.insert column cell).origin = r.origin ∧
      ∀ name, name ≠ column → (r.insert column cell).get? name = r.get? name ∧
        ∀ (i : Nat) (old : Cell), (r.insert column cell).cells[i]? = some (name, old) ↔
          r.cells[i]? = some (name, old) := by
  intro r names
  have cells : r.cells = (ofPairs (inserted changes)).cells := cells_built changes
  have found : ∀ name, r.get? name = (ofPairs (inserted changes)).get? name := by
    intro name
    rw [get?, get?, cells]
  have columns : r.columns = names.eraseDups := by
    rw [← columns_ofPairs, Row.columns, Row.columns, cells]
  have distinct : r.columns.Nodup := by
    rw [Row.columns, cells]
    exact nodup_columns_ofPairs _
  have mem : ∀ name, name ∈ r.columns ↔ name ∈ names := by
    intro name
    rw [columns, List.mem_eraseDups]
  refine ⟨distinct, mem, columns ▸ pairwise_eraseDups names, ?_, ?_, ?_, ?_⟩
  · intro name cell
    rw [found, get?_ofPairs_eq_some_iff]
  · intro name
    rw [← mem, ← isSome_get?_iff, Option.not_isSome_iff_eq_none]
  · have same : r.columns.toFinset = names.toFinset := by
      ext name
      rw [List.mem_toFinset, List.mem_toFinset, mem]
    rw [← same, List.toFinset_card_of_nodup distinct, Row.columns, List.length_map, width]
  · intro column cell
    refine ⟨rfl, fun name other => ⟨?_, fun i old => getElem?_put other cell old r.cells i⟩⟩
    rw [get?_insert, if_neg other]

example :
    (built [.insert "h" (.text "1"), .ofPairs [("refine", .text "0"), ("q", .text "0.1")],
      .insert "EOC_q" .undefined, .insert "q" (.text "0.2")]).cells =
    [("refine", .text "0"), ("q", .text "0.2"), ("EOC_q", .undefined)] := by
  decide

end RefinementTables.Row
