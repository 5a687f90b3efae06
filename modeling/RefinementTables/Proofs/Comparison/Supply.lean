import RefinementTables.Proofs.Comparison.Columns
import RefinementTables.Proofs.Supply

/-!
Comparing schemes whose rows have the axis and all quantities.

* `levelRow_supplied` — the row of a level can be merged, and has all columns of
  the compared table.
* `lockstep_supplied` — so have all merged rows, and no stream ends because a row
  lacks a column.
* `merge_supplied` — a compared table supplies its columns.
-/

namespace RefinementTables

open Comparison

variable {c : Comparison} {titles names : List String}

/-! ### Columns -/

theorem Comparison.findsAll_addColumns {columns : List String} {pairs : List (String × String)} :
    FindsAll (addColumns columns pairs) := by
  induction pairs generalizing columns with
  | nil => trivial
  | cons pair rest ih =>
    rw [addColumns]
    split
    · rfl
    · exact ih

theorem Comparison.findsAll_columns (c : Comparison) (titles : List String) :
    FindsAll (c.columns titles) := by
  unfold Comparison.columns
  split
  · rfl
  · split
    · rfl
    · exact findsAll_addColumns

/-! ### Reading -/

namespace Reading

theorem findsAll_countRows {count : Nat} {left : RowStream} (supplied : Supplies names left) :
    FindsAll (countRows count left) := by
  induction left generalizing count with
  | nil => trivial
  | cons item left ih =>
    obtain ⟨first, later⟩ := supplies_cons.mp supplied
    cases item with
    | error fault => exact first
    | ok row => exact ih later

theorem findsAll_drain {r : Reading} (supplied : Supplies names r.left) : FindsAll r.drain := by
  unfold drain
  split
  · trivial
  · exact findsAll_countRows supplied

end Reading

namespace Comparison

/-- What asking streams for a level gives: rows with some columns and streams of
such rows, and a row from each stream if none has ended. -/
structure LevelSupplied (names : List String) (readings : List Reading)
    (given : List Row × List Reading) : Prop where
  rows : ∀ row ∈ given.1, names ⊆ row.columns
  left : ∀ r ∈ given.2, Supplies names r.left
  sized : given.2.length = readings.length
  going : given.2.any Reading.ended = false → given.1.length = readings.length

theorem nextLevel_supplied {readings : List Reading}
    (supplied : ∀ r ∈ readings, Supplies names r.left) :
    Finds (LevelSupplied names readings) (nextLevel readings) := by
  induction readings with
  | nil => exact ⟨nofun, nofun, rfl, fun _ => rfl⟩
  | cons r rest ih =>
    obtain ⟨left, count, ended⟩ := r
    obtain ⟨first, later⟩ := List.forall_mem_cons.mp supplied
    rw [nextLevel]
    cases left with
    | nil =>
      refine (ih later).bind ?_
      rintro ⟨level, streams⟩ ⟨rows, left, sized, going⟩
      exact ⟨rows, List.forall_mem_cons.mpr ⟨nofun, left⟩, congrArg Nat.succ sized, nofun⟩
    | cons item left =>
      obtain ⟨offered, left_supplied⟩ := supplies_cons.mp first
      cases item with
      | error fault => exact offered
      | ok row =>
        refine (ih later).bind ?_
        rintro ⟨level, streams⟩ ⟨rows, left, sized, going⟩
        refine ⟨List.forall_mem_cons.mpr ⟨offered, rows⟩,
          List.forall_mem_cons.mpr ⟨left_supplied, left⟩, congrArg Nat.succ sized, ?_⟩
        intro none_ended
        rw [List.any_cons, Bool.or_eq_false_iff] at none_ended
        exact congrArg Nat.succ (going none_ended.2)

theorem findsAll_drainAll {readings : List Reading}
    (supplied : ∀ r ∈ readings, Supplies names r.left) : FindsAll (drainAll readings) := by
  induction readings with
  | nil => trivial
  | cons r rest ih =>
    obtain ⟨first, later⟩ := List.forall_mem_cons.mp supplied
    exact (Reading.findsAll_drain first).bind fun _ _ => (ih later).bind fun _ _ => trivial

/-! ### Merging -/

/-- The row of a level of rows with the axis and all quantities has the columns of
the compared table. -/
theorem levelRow_supplied {first : Row} {others : List Row} {columns : List String}
    (named : c.columns titles = .ok columns) (sized : titles.length = others.length + 1)
    (complete : ∀ row ∈ first :: others, c.axis :: c.quantities ⊆ row.columns) :
    Finds (fun row => row.columns = columns) (c.levelRow titles first others) := by
  obtain ⟨rfl, distinct⟩ := columns_ok named
  have axis_there := complete first List.mem_cons_self List.mem_cons_self
  obtain ⟨axis, found⟩ := Option.isSome_iff_exists.mp (Row.isSome_get?_iff.mpr axis_there)
  have quantities_there : ∀ row ∈ first :: others, ∀ quantity ∈ c.quantities,
      (row.get? quantity).isSome := by
    intro row hr quantity hq
    exact Row.isSome_get?_iff.mpr (complete row hr (List.mem_cons_of_mem _ hq))
  have titles_eq : (titles.zip (first :: others)).map Prod.fst = titles :=
    List.map_fst_zip (Nat.le_of_eq sized)
  rw [levelRow_ok found quantities_there sized distinct, Finds, Row.columns, List.map_cons,
    map_fst_levelCells, titles_eq]

/-- Reading streams of rows with the axis and all quantities in lockstep merges rows
with the columns of the compared table, and leaves such streams. -/
theorem lockstep_supplied {columns : List String} {rows : List Row} {count : Nat}
    {others : List Reading} {stream : RowStream} (named : c.columns titles = .ok columns)
    (sized : titles.length = others.length + 1)
    (supplied : Supplies (c.axis :: c.quantities) stream)
    (others_supplied : ∀ r ∈ others, Supplies (c.axis :: c.quantities) r.left)
    (full : ∀ row ∈ rows, row.columns = columns) :
    Finds (fun merged => (∀ row ∈ merged.1, row.columns = columns) ∧
        ∀ r ∈ merged.2, Supplies (c.axis :: c.quantities) r.left)
      (c.lockstep titles rows count others stream) := by
  induction stream generalizing rows count others with
  | nil =>
    refine (nextLevel_supplied others_supplied).bind ?_
    rintro ⟨level, streams⟩ given
    exact ⟨full, List.forall_mem_cons.mpr ⟨nofun, given.left⟩⟩
  | cons item left ih =>
    obtain ⟨first, later⟩ := supplies_cons.mp supplied
    cases item with
    | error fault => exact first
    | ok row =>
      refine (nextLevel_supplied others_supplied).bind ?_
      rintro ⟨level, streams⟩ given
      dsimp only
      split
      · exact ⟨full, List.forall_mem_cons.mpr ⟨later, given.left⟩⟩
      · next going =>
        -- As no stream has ended, there is a row for every title.
        have level_sized := given.going (Bool.eq_false_iff.mpr going)
        have merged : Finds (fun row => row.columns = columns) (c.levelRow titles row level) :=
          levelRow_supplied named (by rw [level_sized, sized])
            (List.forall_mem_cons.mpr ⟨first, given.rows⟩)
        refine merged.bind ?_
        intro new new_full
        refine ih (by rw [given.sized, sized]) later given.left ?_
        intro old mem
        rcases List.mem_append.mp mem with before | last
        · exact full old before
        · rw [List.mem_singleton.mp last]
          exact new_full

/-- A comparison of schemes that have the axis and all quantities supplies the
columns of its table, or ends for another reason than a column that is missing. -/
theorem merge_supplied {schemes : List Scheme}
    (supplied : ∀ scheme ∈ schemes, Supplies (c.axis :: c.quantities) scheme.rows) :
    Finds (fun table => Supplies table.columns (table.rows.map .ok)) (c.merge schemes) := by
  cases schemes with
  | nil => rfl
  | cons first others =>
    obtain ⟨first_supplied, others_supplied⟩ := List.forall_mem_cons.mp supplied
    have named := (c.findsAll_columns ((first :: others).map Scheme.title)).of_ok
      fun columns ok => ok
    refine named.bind ?_
    intro columns named
    have started : ∀ r ∈ others.map fun scheme => Reading.start scheme.rows,
        Supplies (c.axis :: c.quantities) r.left := List.forall_mem_map.mpr others_supplied
    have none_full : ∀ row ∈ ([] : List Row), row.columns = columns := List.forall_mem_nil _
    refine (lockstep_supplied named (by simp) first_supplied started none_full).bind ?_
    rintro ⟨rows, readings⟩ ⟨full, left⟩
    refine (findsAll_drainAll left).bind ?_
    intro lengths _
    dsimp only
    split
    · rfl
    · refine List.forall_mem_map.mpr fun row mem => ?_
      rw [Offers, Finds, full row mem]
      exact List.Subset.refl _

end Comparison

end RefinementTables
