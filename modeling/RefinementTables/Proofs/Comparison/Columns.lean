import RefinementTables.Comparison
import RefinementTables.Proofs.Row

/-!
The columns of a compared table, and the row of one level.

* `columns_ok` — columns that are accepted are the axis and one for each quantity
  of each scheme, and they are pairwise distinct.
* `levelRow_ok` — the row of a level has exactly these columns, in this order.
  `lookup_levelCells` — as they are distinct, no cell is overwritten, so that each
  is the one that its scheme has.
-/

namespace RefinementTables

namespace Comparison

variable {c : Comparison} {titles : List String}

/-! ### Columns -/

theorem addColumns_eq_ok_iff {columns found : List String} {pairs : List (String × String)}
    (distinct : columns.Nodup) :
    addColumns columns pairs = .ok found ↔
      found = columns ++ pairs.map (fun p => schemeColumn p.1 p.2) ∧ found.Nodup := by
  induction pairs generalizing columns with
  | nil =>
    rw [addColumns, List.map_nil, List.append_nil, Except.ok.injEq]
    constructor
    · rintro rfl
      exact ⟨rfl, distinct⟩
    · rintro ⟨rfl, -⟩
      rfl
  | cons p rest ih =>
    obtain ⟨quantity, title⟩ := p
    rw [addColumns, List.map_cons]
    by_cases taken : schemeColumn quantity title ∈ columns
    · rw [if_pos taken]
      refine ⟨nofun, fun ⟨all, found_distinct⟩ => ?_⟩
      rw [all, List.nodup_append] at found_distinct
      exact absurd rfl (found_distinct.2.2 _ taken _ List.mem_cons_self)
    · rw [if_neg taken, ih, List.append_assoc, List.singleton_append]
      refine List.nodup_append.mpr ⟨distinct, by simp, ?_⟩
      intro a ha b hb
      rw [List.mem_singleton.mp hb]
      rintro rfl
      exact taken ha

/-- Columns that are accepted. -/
theorem columns_ok {columns : List String} (ok : c.columns titles = .ok columns) :
    columns = c.axis :: (c.pairs titles).map (fun p => schemeColumn p.1 p.2) ∧ columns.Nodup := by
  unfold Comparison.columns at ok
  split at ok
  · cases ok
  · split at ok
    · cases ok
    · exact (addColumns_eq_ok_iff (by simp)).mp ok

/-! ### The row of a level -/

/-- The cells of a quantity, one for each scheme of a level. -/
def quantityCells (level : List (String × Row)) (quantity : String) : List (String × Cell) :=
  level.map fun (title, row) =>
    (schemeColumn quantity title, (row.get? quantity).getD .undefined)

/-- The cells of quantities, in column order. -/
def levelCells (level : List (String × Row)) (quantities : List String) : List (String × Cell) :=
  quantities.flatMap (quantityCells level)

theorem map_fst_quantityCells (level : List (String × Row)) (quantity : String) :
    (quantityCells level quantity).map Prod.fst =
      (level.map Prod.fst).map fun title => schemeColumn quantity title := by
  simp [quantityCells, Function.comp_def]

/-- The names of the cells are those of the columns after the axis. -/
theorem map_fst_levelCells (level : List (String × Row)) :
    (levelCells level c.quantities).map Prod.fst =
      (c.pairs (level.map Prod.fst)).map fun p => schemeColumn p.1 p.2 := by
  simp [levelCells, pairs, List.map_flatMap, map_fst_quantityCells, Function.comp_def]

theorem addQuantity_ok {level : List (String × Row)} {quantity : String} {merged : Row}
    (complete : ∀ entry ∈ level, (entry.2.get? quantity).isSome)
    (distinct : (merged.columns ++ (quantityCells level quantity).map Prod.fst).Nodup) :
    addQuantity quantity merged level =
      .ok { merged with cells := merged.cells ++ quantityCells level quantity } := by
  induction level generalizing merged with
  | nil => simp [addQuantity, quantityCells]
  | cons entry rest ih =>
    obtain ⟨title, row⟩ := entry
    obtain ⟨cell, there⟩ := Option.isSome_iff_exists.mp (complete (title, row) List.mem_cons_self)
    have split : quantityCells ((title, row) :: rest) quantity =
        (schemeColumn quantity title, cell) :: quantityCells rest quantity := by
      simp [quantityCells, there]
    rw [split, List.map_cons, List.append_cons] at distinct
    have absent : schemeColumn quantity title ∉ merged.cells.map Prod.fst := fun taken =>
      (List.nodup_append.mp (List.nodup_append.mp distinct).1).2.2 _ taken _ (by simp) rfl
    have inserted : merged.insert (schemeColumn quantity title) cell =
        { merged with cells := merged.cells ++ [(schemeColumn quantity title, cell)] } := by
      rw [Row.insert, Row.put_of_not_mem absent]
    rw [addQuantity, Row.require_eq_ok_iff.mpr there]
    refine (ih (fun e he => complete e (List.mem_cons_of_mem _ he)) ?_).trans ?_
    · rw [inserted]
      simpa [Row.columns] using distinct
    · rw [inserted, split]
      simp

theorem addQuantities_ok {level : List (String × Row)} {quantities : List String} {merged : Row}
    (complete : ∀ entry ∈ level, ∀ quantity ∈ quantities, (entry.2.get? quantity).isSome)
    (distinct : (merged.columns ++ (levelCells level quantities).map Prod.fst).Nodup) :
    addQuantities level merged quantities =
      .ok { merged with cells := merged.cells ++ levelCells level quantities } := by
  induction quantities generalizing merged with
  | nil => simp [addQuantities, levelCells]
  | cons quantity rest ih =>
    have split : levelCells level (quantity :: rest) =
        quantityCells level quantity ++ levelCells level rest := List.flatMap_cons
    rw [split, List.map_append, ← List.append_assoc] at distinct
    rw [addQuantities, addQuantity_ok (fun e he => complete e he quantity List.mem_cons_self)
      (List.nodup_append.mp distinct).1]
    refine (ih (fun e he q hq => complete e he q (List.mem_cons_of_mem _ hq)) ?_).trans ?_
    · simpa [Row.columns] using distinct
    · rw [split]
      simp

/-- The row of a level in which nothing is missing. -/
theorem levelRow_ok {first : Row} {others : List Row} {axis : Cell}
    (axis_there : first.get? c.axis = some axis)
    (complete : ∀ row ∈ first :: others, ∀ quantity ∈ c.quantities, (row.get? quantity).isSome)
    (sized : titles.length = (first :: others).length)
    (distinct : (c.axis :: (c.pairs titles).map fun p => schemeColumn p.1 p.2).Nodup) :
    c.levelRow titles first others =
      .ok ⟨(c.axis, axis) :: levelCells (titles.zip (first :: others)) c.quantities, none⟩ := by
  have titles_eq : (titles.zip (first :: others)).map Prod.fst = titles :=
    List.map_fst_zip (Nat.le_of_eq sized)
  rw [levelRow, Row.require_eq_ok_iff.mpr axis_there]
  refine addQuantities_ok (fun entry he => complete entry.2 (List.of_mem_zip he).2) ?_
  rw [map_fst_levelCells, titles_eq]
  exact distinct

/-- The cell of a quantity in a scheme's row is found in its column. -/
theorem lookup_levelCells {level : List (String × Row)} {axis cell : Cell} {title quantity : String}
    {row : Row} (distinct : ((c.axis, axis) :: levelCells level c.quantities).map Prod.fst |>.Nodup)
    (entry : (title, row) ∈ level) (chosen : quantity ∈ c.quantities)
    (there : row.get? quantity = some cell) :
    ((c.axis, axis) :: levelCells level c.quantities).lookup (schemeColumn quantity title) =
      some cell := by
  refine Row.lookup_of_mem distinct (List.mem_cons_of_mem _ ?_)
  refine List.mem_flatMap.mpr ⟨quantity, chosen, List.mem_map.mpr ⟨(title, row), entry, ?_⟩⟩
  simp [there]

end Comparison

end RefinementTables
