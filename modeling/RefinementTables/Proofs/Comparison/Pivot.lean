import RefinementTables.Proofs.Comparison.Columns
import RefinementTables.Proofs.Comparison.Lockstep

/-!
Merging schemes that hold rows only.

* `Complete.levelRow` — a level from which nothing is missing is merged to a row
  with the cells of its schemes (`Pivots`).
* `merge_pivots` — the compared table has one such row for each level that all
  schemes have, and a truncation where their lengths differ.
-/

namespace RefinementTables

namespace Comparison

variable {c : Comparison}

/-! ### Streams of schemes -/

/-- The rows of a stream, without its faults. -/
def rowsOf (stream : RowStream) : List Row :=
  stream.filterMap Except.toOption

theorem rowsOf_map_ok (rows : List Row) : rowsOf (rows.map .ok) = rows := by
  induction rows with
  | nil => rfl
  | cons row rest ih => exact congrArg (row :: ·) ih

/-- A stream of rows is its rows. -/
theorem map_ok_rowsOf {stream : RowStream} (sound : ∀ item ∈ stream, ∃ row, item = .ok row) :
    (rowsOf stream).map .ok = stream := by
  induction stream with
  | nil => rfl
  | cons item rest ih =>
    obtain ⟨row, rfl⟩ := sound item List.mem_cons_self
    have rest_eq := ih fun item hi => sound item (List.mem_cons_of_mem _ hi)
    exact congrArg (.ok row :: ·) rest_eq

theorem length_rowsOf {stream : RowStream} (sound : ∀ item ∈ stream, ∃ row, item = .ok row) :
    (rowsOf stream).length = stream.length := by
  rw [← List.length_map, map_ok_rowsOf sound]

theorem getElem?_of_rowsOf {stream : RowStream} (sound : ∀ item ∈ stream, ∃ row, item = .ok row)
    {i : Nat} {row : Row} (there : (rowsOf stream)[i]? = some row) :
    stream[i]? = some (.ok row) := by
  rw [← map_ok_rowsOf sound, List.getElem?_map, there]
  rfl

/-- Sound streams are read from their start as their rows. -/
theorem map_start {schemes : List Scheme}
    (sound : ∀ s ∈ schemes, ∀ item ∈ s.rows, ∃ row, item = .ok row) :
    (schemes.map fun s => Reading.start s.rows) =
      (schemes.map fun s => rowsOf s.rows).map (Reading.of 0) := by
  rw [List.map_map]
  refine List.map_congr_left ?_
  intro s hs
  rw [Function.comp_apply, Reading.of, map_ok_rowsOf (sound s hs)]
  rfl

/-- In a level each scheme's row stands beside its title. -/
theorem exists_mem_zip {row? : Scheme → Option Row} {schemes : List Scheme} {level : List Row}
    (level_eq : schemes.map row? = level.map some) {scheme : Scheme} (member : scheme ∈ schemes) :
    ∃ row, row? scheme = some row ∧ (scheme.title, row) ∈ (schemes.map Scheme.title).zip level := by
  induction schemes generalizing level with
  | nil => cases member
  | cons s rest ih =>
    cases level with
    | nil => cases level_eq
    | cons row level =>
      rw [List.map_cons, List.map_cons, List.cons.injEq] at level_eq
      rcases List.mem_cons.mp member with rfl | member
      · exact ⟨row, level_eq.1, List.mem_cons_self⟩
      · obtain ⟨row', there, beside⟩ := ih level_eq.2 member
        exact ⟨row', there, List.mem_cons_of_mem _ beside⟩

/-! ### The compared table -/

/-- What is asked of the schemes of a merge: all their streams hold rows only and
at least one, and nothing is missing from the levels below a number. -/
structure Complete (c : Comparison) (schemes : List Scheme) (levels : Nat) : Prop where
  sound : ∀ scheme ∈ schemes, ∀ item ∈ scheme.rows, ∃ row, item = .ok row
  nonempty : ∀ scheme ∈ schemes, scheme.rows ≠ []
  axis : ∀ first ∈ schemes.head?, ∀ i < levels, ∀ row, first.rows[i]? = some (.ok row) →
    (row.get? c.axis).isSome
  quantities : ∀ scheme ∈ schemes, ∀ i < levels, ∀ row, scheme.rows[i]? = some (.ok row) →
    ∀ quantity ∈ c.quantities, (row.get? quantity).isSome

/-- A merged row, seen from the schemes: its columns are those of the table, its
axis is that of the first scheme, and each other cell is that of its scheme. -/
structure Pivots (c : Comparison) (columns : List String) (schemes : List Scheme) (i : Nat)
    (merged : Row) : Prop where
  columns : merged.columns = columns
  axis : ∀ first ∈ schemes.head?, ∃ row, first.rows[i]? = some (.ok row) ∧
    merged.get? c.axis = row.get? c.axis
  cells : ∀ scheme ∈ schemes, ∃ row, scheme.rows[i]? = some (.ok row) ∧
    ∀ quantity ∈ c.quantities,
      merged.get? (schemeColumn quantity scheme.title) = row.get? quantity

section Merging

variable {first : Scheme} {others : List Scheme} {columns : List String} {m i : Nat} {row : Row}
  {level : List Row}

/-- The rows of a level, scheme by scheme. -/
theorem map_level (at_i : LevelAt (rowsOf first.rows) (others.map fun s => rowsOf s.rows) i row level) :
    (first :: others).map (fun s => (rowsOf s.rows)[i]?) = (row :: level).map some := by
  rw [List.map_cons, List.map_cons, at_i.1, ← at_i.2, List.map_map]
  rfl

/-- A level of complete schemes can be merged, and its row pivots it. -/
theorem Complete.levelRow (complete : Complete c (first :: others) m) (below : i < m)
    (named : c.columns ((first :: others).map Scheme.title) = .ok columns)
    (at_i : LevelAt (rowsOf first.rows) (others.map fun s => rowsOf s.rows) i row level) :
    ∃ merged, c.levelRow ((first :: others).map Scheme.title) row level = .ok merged ∧
      Pivots c columns (first :: others) i merged := by
  obtain ⟨columns_eq, distinct⟩ := columns_ok named
  have level_eq := map_level at_i
  have source : ∀ scheme ∈ first :: others, ∀ row, (rowsOf scheme.rows)[i]? = some row →
      scheme.rows[i]? = some (.ok row) := fun scheme hs row there =>
    getElem?_of_rowsOf (complete.sound scheme hs) there
  have first_at := source first List.mem_cons_self row at_i.1
  obtain ⟨axis, axis_there⟩ := Option.isSome_iff_exists.mp (complete.axis first rfl i below row first_at)
  have cells_there : ∀ r ∈ row :: level, ∀ quantity ∈ c.quantities, (r.get? quantity).isSome := by
    intro r hr
    have mem : some r ∈ (first :: others).map fun s => (rowsOf s.rows)[i]? :=
      level_eq ▸ List.mem_map_of_mem hr
    obtain ⟨scheme, hs, there⟩ := List.mem_map.mp mem
    exact complete.quantities scheme hs i below r (source scheme hs r there)
  have sized : ((first :: others).map Scheme.title).length = (row :: level).length := by
    have lengths := congrArg List.length level_eq
    simpa using lengths
  have merged := levelRow_ok axis_there cells_there sized (columns_eq ▸ distinct)
  refine ⟨_, merged, ?_⟩
  have names : ((c.axis, axis) :: levelCells
      (((first :: others).map Scheme.title).zip (row :: level)) c.quantities).map Prod.fst =
      columns := by
    rw [List.map_cons, map_fst_levelCells, List.map_fst_zip (Nat.le_of_eq sized), columns_eq]
  exact {
    columns := names
    axis := by
      rintro _ ⟨⟩
      refine ⟨row, first_at, ?_⟩
      rw [axis_there]
      exact List.lookup_cons_self
    cells := by
      intro scheme hs
      obtain ⟨r, there, beside⟩ := exists_mem_zip level_eq hs
      have scheme_at := source scheme hs r there
      refine ⟨r, scheme_at, ?_⟩
      intro quantity hq
      obtain ⟨cell, cell_there⟩ :=
        Option.isSome_iff_exists.mp (complete.quantities scheme hs i below r scheme_at quantity hq)
      rw [cell_there]
      exact lookup_levelCells (names ▸ distinct) beside hq cell_there }

/-- The streams of complete schemes are read in lockstep as their rows. -/
theorem Complete.lockstep (complete : Complete c (first :: others) m)
    (named : c.columns ((first :: others).map Scheme.title) = .ok columns)
    (least : ((first :: others).map fun s => s.rows.length).min? = some m) :
    ∃ rows readings,
      c.lockstep ((first :: others).map Scheme.title) [] 0
        (others.map fun s => Reading.start s.rows) first.rows = .ok (rows, readings) ∧
      drainAll readings = .ok ((first :: others).map fun s => s.rows.length) ∧
      rows.length = m ∧
      ∀ i merged, rows[i]? = some merged → Pivots c columns (first :: others) i merged := by
  obtain ⟨m_mem, m_le⟩ := List.min?_eq_some_iff.mp least
  have lengths : ((first :: others).map fun s => rowsOf s.rows).map List.length =
      (first :: others).map fun s => s.rows.length := by
    rw [List.map_map]
    exact List.map_congr_left fun s hs => length_rowsOf (complete.sound s hs)
  have below : ∀ i row level,
      LevelAt (rowsOf first.rows) (others.map fun s => rowsOf s.rows) i row level → i < m := by
    intro i row level at_i
    obtain ⟨scheme, hs, rfl⟩ := List.mem_map.mp m_mem
    obtain ⟨r, there, -⟩ := exists_mem_zip (map_level at_i) hs
    rw [← length_rowsOf (complete.sound scheme hs)]
    exact (List.getElem?_eq_some_iff.mp there).1
  have merges : ∀ i row level,
      LevelAt (rowsOf first.rows) (others.map fun s => rowsOf s.rows) i row level →
      ∃ merged, c.levelRow ((first :: others).map Scheme.title) row level = .ok merged := by
    intro i row level at_i
    obtain ⟨merged, now, -⟩ := complete.levelRow (below i row level at_i) named at_i
    exact ⟨merged, now⟩
  obtain ⟨rows, readings, run, drained, levels⟩ := lockstep_levels [] 0 merges
  have started := map_start fun s hs => complete.sound s (List.mem_cons_of_mem _ hs)
  rw [← started, map_ok_rowsOf (complete.sound first List.mem_cons_self), List.nil_append] at run
  simp only [Nat.zero_add] at drained
  rw [← lengths] at m_mem m_le ⊢
  refine ⟨rows, readings, run, drained, ?_, ?_⟩
  · obtain ⟨shortest, hs, eq_m⟩ := List.mem_map.mp m_mem
    obtain ⟨stream, hl, eq_rows⟩ := levels.ends
    have upper := levels.common shortest hs
    have lower := m_le _ (List.mem_map_of_mem hl)
    omega
  · intro i merged there
    obtain ⟨row, level, at_i, now⟩ := levels.merged i merged there
    obtain ⟨merged', now', pivots⟩ := complete.levelRow (below i row level at_i) named at_i
    rw [now] at now'
    cases now'
    exact pivots

end Merging

theorem firstEmpty_eq_none_iff {lengths : List (String × Nat)} :
    firstEmpty lengths = none ↔ ∀ entry ∈ lengths, entry.2 ≠ 0 := by
  induction lengths with
  | nil => simp [firstEmpty]
  | cons entry rest ih =>
    obtain ⟨title, length⟩ := entry
    rw [firstEmpty, List.forall_mem_cons, ← ih]
    by_cases empty : length = 0 <;> simp [empty]

theorem truncation?_eq_none_iff {common : Nat} {lengths : List (String × Nat)} :
    truncation? common lengths = none ↔ ∀ entry ∈ lengths, entry.2 = common := by
  unfold truncation?
  split
  · next differs =>
    obtain ⟨entry, he, different⟩ := List.any_eq_true.mp differs
    exact ⟨nofun, fun same => absurd (same entry he) (by simpa using different)⟩
  · next same =>
    refine ⟨?_, fun _ => rfl⟩
    intro _ entry he
    have entry_same := List.any_eq_false.mp (Bool.eq_false_iff.mpr same) entry he
    simpa using entry_same

theorem truncation?_eq_some {common : Nat} {lengths : List (String × Nat)} {found : Truncation}
    (h : truncation? common lengths = some found) : found = ⟨common, lengths⟩ := by
  unfold truncation? at h
  split at h
  · exact (Option.some.inj h).symm
  · cases h

/-- Merging complete schemes whose columns are accepted gives one row for each
level that all of them have, which pivots their rows of that level, and a
truncation, with all lengths, exactly where the lengths differ. -/
theorem merge_pivots {schemes : List Scheme} {columns : List String} {m : Nat}
    (named : c.columns (schemes.map Scheme.title) = .ok columns)
    (least : (schemes.map fun s => s.rows.length).min? = some m)
    (complete : Complete c schemes m) :
    ∃ table, c.merge schemes = .ok table ∧
      table.columns = columns ∧
      table.rows.length = m ∧
      (∀ i merged, table.rows[i]? = some merged → Pivots c columns schemes i merged) ∧
      (table.truncation = none ↔ ∀ scheme ∈ schemes, scheme.rows.length = m) ∧
      ∀ truncation, table.truncation = some truncation →
        truncation.common = m ∧
        truncation.lengths = schemes.map (fun s => (s.title, s.rows.length)) ∧
        truncation.truncated =
          (schemes.filter fun s => m < s.rows.length).map Scheme.title := by
  cases schemes with
  | nil => cases least
  | cons first others =>
    obtain ⟨rows, readings, run, drained, rfl, pivots⟩ := complete.lockstep named least
    have lengths : ((first :: others).map Scheme.title).zip
        ((first :: others).map fun s => s.rows.length) =
        (first :: others).map fun s => (s.title, s.rows.length) := List.zip_map'
    have none_empty :
        firstEmpty ((first :: others).map fun s => (s.title, s.rows.length)) = none := by
      refine firstEmpty_eq_none_iff.mpr ?_
      intro entry he
      obtain ⟨scheme, hs, rfl⟩ := List.mem_map.mp he
      simpa using complete.nonempty scheme hs
    have merged : c.merge (first :: others) = .ok ⟨columns, rows,
        truncation? rows.length ((first :: others).map fun s => (s.title, s.rows.length))⟩ := by
      rw [merge, named]
      refine bind_eq_ok_iff.mpr ⟨_, rfl, bind_eq_ok_iff.mpr ⟨_, run, ?_⟩⟩
      refine bind_eq_ok_iff.mpr ⟨_, drained, ?_⟩
      simp only [lengths, none_empty]
      rfl
    refine ⟨_, merged, rfl, rfl, pivots, ?_, ?_⟩
    · rw [truncation?_eq_none_iff]
      simp
    · intro truncation found
      cases truncation?_eq_some found
      refine ⟨rfl, rfl, ?_⟩
      rw [Truncation.truncated, List.filter_map, List.map_map]
      rfl

/-- Two levels of one scheme and one of another. -/
def unequalSchemes : List Scheme :=
  let row := fun h e => .ok (Row.ofPairs [("h", .text h), ("e", .text e)])
  [⟨"a", [row "1" "3", row "2" "4"]⟩, ⟨"b", [row "1" "5"]⟩]

/-- The level that both schemes have is merged, and the longer one is named. -/
theorem merge_unequalSchemes :
    let c : Comparison := ⟨"h", ["e"]⟩
    c.columns (unequalSchemes.map Scheme.title) = .ok ["h", "e_a", "e_b"] ∧
      (unequalSchemes.map fun s => s.rows.length).min? = some 1 ∧
      Complete c unequalSchemes 1 ∧
      ∃ table, c.merge unequalSchemes = .ok table ∧ table.rows.length = 1 ∧
        ∀ truncation, table.truncation = some truncation → truncation.truncated = ["a"] := by
  intro c
  have named : c.columns (unequalSchemes.map Scheme.title) = .ok ["h", "e_a", "e_b"] := by rfl
  have least : (unequalSchemes.map fun s => s.rows.length).min? = some 1 := by decide
  have complete : Complete c unequalSchemes 1 := {
    sound := by simp [unequalSchemes]
    nonempty := by simp [unequalSchemes]
    axis := by
      rintro _ ⟨⟩ i below row there
      cases Nat.lt_one_iff.mp below
      cases there
      decide
    quantities := by
      intro scheme hs i below row there quantity hq
      cases Nat.lt_one_iff.mp below
      cases List.mem_singleton.mp hq
      rcases List.mem_cons.mp hs with rfl | hs
      · cases there
        decide
      · cases List.mem_singleton.mp hs
        cases there
        decide }
  obtain ⟨table, merged, -, length, -, -, truncation⟩ := merge_pivots named least complete
  exact ⟨named, least, complete, table, merged, length, fun found h => (truncation found h).2.2⟩

end Comparison

end RefinementTables
