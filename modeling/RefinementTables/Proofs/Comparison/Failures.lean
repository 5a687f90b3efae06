import RefinementTables.Comparison
import RefinementTables.Proofs.Checked

/-!
How a merge fails.

A merge can meet faults in the streams of its schemes, rows that lack a column, and
schemes without rows. It reads the streams level by level, and what the longer ones
have left only then, so that the faults come in an order of their own.

* `Comparison.failures` — all faults of a merge in that order.
* `lockstep_stopsAtFirst`, `drainAll_stopsAtFirst` — reading the levels and counting
  what is left stop at the first fault on their way.
* `merge_failures` — a merge ends with the first of its faults, and there is one
  exactly if the columns clash, a stream holds a fault, a common level lacks a column
  or a scheme is empty.
-/

namespace RefinementTables

open Comparison

/-! ### Faults by their place -/

/-- The fault of a row that lacks a column. -/
def Row.lack? (r : Row) (column : String) : Option Fault :=
  match r.get? column with
  | some _ => none
  | none => some (.incompleteRecord column r.describe)

namespace RowStream

/-- The fault that an item is. -/
def fault? : Except Fault Row → Option Fault
  | .error fault => some fault
  | .ok _ => none

/-- The fault at a position of a stream. -/
def faultAt? (stream : RowStream) (i : Nat) : Option Fault :=
  stream[i]?.bind fault?

/-- The row at a position of a stream. -/
def rowAt? (stream : RowStream) (i : Nat) : Option Row :=
  stream[i]?.bind Except.toOption

end RowStream

namespace Comparison

open RowStream

/-- The faults at one position of streams, stream by stream. -/
def faultsAt (streams : List RowStream) (i : Nat) : List Fault :=
  streams.filterMap fun stream => stream.faultAt? i

/-- What one level lacks: the axis in the row of the first scheme, and then each
quantity in the rows of all schemes. -/
def lacksAt (c : Comparison) (first : RowStream) (others : List RowStream) (i : Nat) : List Fault :=
  ((first.rowAt? i).bind fun row => row.lack? c.axis).toList ++
    c.quantities.flatMap fun quantity =>
      (first :: others).filterMap fun stream => (stream.rowAt? i).bind fun row => row.lack? quantity

/-- The faults on the way through some levels: at each of them first those of the
streams and then what it lacks. At the level after the last, streams are still asked
for a row. -/
def levelFaults (c : Comparison) (first : RowStream) (others : List RowStream) (levels : Nat) :
    List Fault :=
  ((List.range levels).flatMap fun i =>
    faultsAt (first :: others) i ++ c.lacksAt first others i) ++ faultsAt (first :: others) levels

/-- The faults behind a position of streams, stream by stream. -/
def faultsAfter (streams : List RowStream) (i : Nat) : List Fault :=
  streams.flatMap fun stream => (stream.drop (i + 1)).filterMap fault?

/-- The faults of the schemes that have no rows. -/
def emptySchemes (schemes : List Scheme) : List Fault :=
  (schemes.filter fun s => s.rows.isEmpty).map fun s => .emptyScheme s.title

/-- The fault of columns that are not accepted. -/
def columnFault? (c : Comparison) (titles : List String) : Option Fault :=
  match c.columns titles with
  | .ok _ => none
  | .error fault => some fault

/-- All faults of a merge of schemes with some number of common levels, in the order
in which it meets them. -/
def failures (c : Comparison) (first : Scheme) (others : List Scheme) (levels : Nat) : List Fault :=
  (c.columnFault? ((first :: others).map Scheme.title)).toList ++
    (c.levelFaults first.rows (others.map Scheme.rows) levels ++
      (faultsAfter ((first :: others).map Scheme.rows) levels ++ emptySchemes (first :: others)))

variable {c : Comparison} {titles : List String}

/-! ### Levels -/

theorem require_stopsAtFirst (r : Row) (column : String) :
    StopsAtFirst (r.lack? column).toList (fun _ => True) (r.require column) := by
  unfold Row.lack? Row.require
  cases r.get? column with
  | none => rfl
  | some cell => exact ⟨cell, rfl, trivial⟩

theorem addQuantity_stopsAtFirst (quantity : String) (merged : Row) (level : List (String × Row)) :
    StopsAtFirst (level.filterMap fun entry => entry.2.lack? quantity) (fun _ => True)
      (addQuantity quantity merged level) := by
  induction level generalizing merged with
  | nil => exact ⟨merged, rfl, trivial⟩
  | cons entry rest ih =>
    obtain ⟨title, row⟩ := entry
    rw [List.filterMap_eq_flatMap_toList, List.flatMap_cons, ← List.filterMap_eq_flatMap_toList]
    exact (require_stopsAtFirst row quantity).bind fun _ _ _ => ih _

theorem addQuantities_stopsAtFirst (level : List (String × Row)) (merged : Row)
    (quantities : List String) :
    StopsAtFirst
      (quantities.flatMap fun quantity => level.filterMap fun entry => entry.2.lack? quantity)
      (fun _ => True) (addQuantities level merged quantities) := by
  induction quantities generalizing merged with
  | nil => exact ⟨merged, rfl, trivial⟩
  | cons quantity rest ih =>
    rw [List.flatMap_cons]
    exact (addQuantity_stopsAtFirst quantity merged level).bind fun _ _ _ => ih _

/-- The row of a level of which every scheme has a row. -/
theorem levelRow_stopsAtFirst {first : Row} {level : List Row}
    (sized : titles.length = (first :: level).length) :
    StopsAtFirst ((first.lack? c.axis).toList ++
        c.quantities.flatMap fun quantity => (first :: level).filterMap fun row => row.lack? quantity)
      (fun _ => True) (c.levelRow titles first level) := by
  have rows : (titles.zip (first :: level)).map Prod.snd = first :: level :=
    List.map_snd_zip (Nat.le_of_eq sized.symm)
  have lacks : ∀ quantity,
      ((titles.zip (first :: level)).filterMap fun entry => entry.2.lack? quantity) =
        (first :: level).filterMap fun row => row.lack? quantity := by
    intro quantity
    conv_rhs => rw [← rows, List.filterMap_map]
    rfl
  refine (require_stopsAtFirst first c.axis).bind fun _ cell _ => ?_
  simp only [← lacks]
  exact addQuantities_stopsAtFirst _ _ _

/-! ### Reading -/

/-- A stream that was asked for a row when `count` of its rows had been read. -/
def askedOf (count : Nat) : RowStream → Reading
  | [] => ⟨[], count, true⟩
  | _ :: left => ⟨left, count + 1, false⟩

theorem ended_askedOf (count : Nat) (stream : RowStream) :
    (askedOf count stream).ended = true ↔ stream = [] := by
  cases stream <;> simp [askedOf]

theorem nextLevel_stopsAtFirst (count : Nat) (streams : List RowStream) :
    StopsAtFirst (faultsAt streams 0)
      (fun given => given.1 = streams.filterMap (fun stream => stream.rowAt? 0) ∧
        given.2 = streams.map (askedOf count))
      (nextLevel (streams.map fun stream => ⟨stream, count, false⟩)) := by
  induction streams with
  | nil => exact ⟨_, rfl, rfl, rfl⟩
  | cons stream rest ih =>
    cases stream with
    | nil =>
      refine ih.bind_ok fun _ given known => ⟨_, rfl, known.1, ?_⟩
      rw [known.2]
      rfl
    | cons item left =>
      cases item with
      | error fault => rfl
      | ok row =>
        refine ih.bind_ok fun _ given known => ⟨_, rfl, ?_, ?_⟩
        · rw [known.1]
          rfl
        · rw [known.2]
          rfl

theorem countRows_stopsAtFirst (count : Nat) (left : RowStream) :
    StopsAtFirst (left.filterMap fault?) (fun total => total = count + left.length)
      (Reading.countRows count left) := by
  induction left generalizing count with
  | nil => exact ⟨count, rfl, rfl⟩
  | cons item left ih =>
    cases item with
    | error fault => rfl
    | ok row =>
      have counted := ih (count + 1)
      rw [Nat.add_assoc, Nat.add_comm 1] at counted
      exact counted

theorem drain_stopsAtFirst (count : Nat) (stream : RowStream) :
    StopsAtFirst (stream.tail.filterMap fault?) (fun total => total = count + stream.length)
      (askedOf count stream).drain := by
  cases stream with
  | nil => exact ⟨count, rfl, rfl⟩
  | cons item left =>
    have counted := countRows_stopsAtFirst (count + 1) left
    rw [Nat.add_assoc, Nat.add_comm 1] at counted
    exact counted

/-- What streams have left is counted stream by stream. -/
theorem drainAll_stopsAtFirst (count : Nat) (streams : List RowStream) :
    StopsAtFirst (faultsAfter streams 0)
      (fun lengths => lengths = streams.map fun stream => count + stream.length)
      (drainAll (streams.map (askedOf count))) := by
  induction streams with
  | nil => exact ⟨[], rfl, rfl⟩
  | cons stream rest ih =>
    rw [faultsAfter, List.flatMap_cons, List.drop_one]
    refine (drain_stopsAtFirst count stream).bind fun _ length counted => ?_
    refine ih.bind_ok fun _ lengths all => ⟨_, rfl, ?_⟩
    rw [counted, all]
    rfl

/-! ### Lockstep -/

/-- The faults of the levels are those of the first one, and then those of the levels
that are left behind it. -/
theorem levelFaults_succ (first : RowStream) (others : List RowStream) (levels : Nat) :
    c.levelFaults first others (levels + 1) =
      faultsAt (first :: others) 0 ++
        (c.lacksAt first others 0 ++ c.levelFaults first.tail (others.map List.tail) levels) := by
  have fault_succ : ∀ (stream : RowStream) i, stream.faultAt? (i + 1) = faultAt? stream.tail i := by
    intro stream i
    rw [faultAt?, faultAt?, List.getElem?_tail]
  have row_succ : ∀ (stream : RowStream) i, stream.rowAt? (i + 1) = rowAt? stream.tail i := by
    intro stream i
    rw [rowAt?, rowAt?, List.getElem?_tail]
  have faults_succ : ∀ i, faultsAt (first :: others) (i + 1) =
      faultsAt (first.tail :: others.map List.tail) i := by
    intro i
    simp only [faultsAt, ← List.map_cons, List.filterMap_map, fault_succ]
    rfl
  have lacks_succ : ∀ i, c.lacksAt first others (i + 1) =
      c.lacksAt first.tail (others.map List.tail) i := by
    intro i
    simp only [lacksAt, ← List.map_cons, List.filterMap_map, row_succ]
    rfl
  rw [levelFaults, List.range_succ_eq_map, List.flatMap_cons, List.flatMap_map, faults_succ,
    List.append_assoc, List.append_assoc]
  simp only [faults_succ, lacks_succ]
  rfl

/-- Where all streams go on without a fault, a level has the rows of all of them. -/
theorem length_level {streams : List RowStream} (going : ∀ stream ∈ streams, stream ≠ [])
    (sound : faultsAt streams 0 = []) :
    (streams.filterMap fun stream => stream.rowAt? 0).length = streams.length := by
  rw [List.filterMap_length_eq_length]
  intro stream hs
  have quiet := List.filterMap_eq_nil_iff.mp sound stream hs
  cases stream with
  | nil => exact absurd rfl (going [] hs)
  | cons item left =>
    cases item with
    | error fault => cases quiet
    | ok row => rfl

/-- What a level lacks is seen in its rows. -/
theorem lacksAt_zero (row : Row) (left : RowStream) (others : List RowStream) :
    c.lacksAt (.ok row :: left) others 0 = (row.lack? c.axis).toList ++
      c.quantities.flatMap fun quantity =>
        (row :: others.filterMap fun stream => stream.rowAt? 0).filterMap fun row =>
          row.lack? quantity := by
  have rows : (row :: others.filterMap fun stream => stream.rowAt? 0) =
      ((.ok row :: left) :: others).filterMap fun stream => rowAt? stream 0 := rfl
  simp only [rows, List.filterMap_filterMap]
  rfl

/-- Where all streams go on, they go on together. -/
theorem map_askedOf {streams : List RowStream} (going : ∀ stream ∈ streams, stream ≠ [])
    (count : Nat) :
    streams.map (askedOf count) =
      (streams.map List.tail).map fun stream => ⟨stream, count + 1, false⟩ := by
  rw [List.map_map]
  refine List.map_congr_left ?_
  intro stream hs
  cases stream with
  | nil => exact absurd rfl (going [] hs)
  | cons item left => rfl

/-- Reading some levels in lockstep, after which a stream has ended, stops at the
first of their faults. It leaves the streams behind these levels, each asked for a
row. -/
theorem lockstep_stopsAtFirst {first : RowStream} {others : List RowStream} {levels : Nat}
    (rows : List Row) (count : Nat) (sized : titles.length = (first :: others).length)
    (common : ∀ stream ∈ first :: others, levels ≤ stream.length)
    (ends : ∃ stream ∈ first :: others, stream.length = levels) :
    StopsAtFirst (c.levelFaults first others levels)
      (fun given => given.2 =
        ((first :: others).map fun stream => stream.drop levels).map (askedOf (count + levels)))
      (c.lockstep titles rows count (others.map fun stream => ⟨stream, count, false⟩) first) := by
  induction levels generalizing first others rows count with
  | zero =>
    have asked := nextLevel_stopsAtFirst count others
    cases first with
    | nil =>
      refine asked.bind_ok fun _ given known => ⟨_, rfl, ?_⟩
      simp [known.2, askedOf]
    | cons item left =>
      cases item with
      | error fault => rfl
      | ok row =>
        refine asked.bind_ok fun _ given known => ?_
        have ended : given.2.any Reading.ended = true := by
          obtain ⟨stream, hs, empty⟩ := ends
          rcases List.mem_cons.mp hs with rfl | hs
          · cases empty
          · rw [known.2, List.any_map, List.any_eq_true]
            exact ⟨stream, hs, (ended_askedOf count stream).mpr (List.length_eq_zero_iff.mp empty)⟩
        refine ⟨_, if_pos ended, ?_⟩
        simp [known.2, askedOf]
  | succ levels ih =>
    rw [levelFaults_succ]
    cases first with
    | nil => exact absurd (common [] List.mem_cons_self) (by simp)
    | cons item left =>
      cases item with
      | error fault => rfl
      | ok row =>
        have asked := nextLevel_stopsAtFirst count others
        refine asked.bind fun sound given known => ?_
        obtain ⟨level_eq, readings_eq⟩ := known
        have going : ∀ stream ∈ others, stream ≠ [] := by
          rintro stream hs rfl
          exact absurd (common [] (List.mem_cons_of_mem _ hs)) (by simp)
        have unended : given.2.any Reading.ended = false := by
          rw [readings_eq, List.any_map, List.any_eq_false]
          intro stream hs ended
          exact going stream hs ((ended_askedOf count stream).mp ended)
        have level_sized : titles.length = (row :: given.1).length := by
          rw [sized, level_eq, List.length_cons, List.length_cons, length_level going sound]
        rw [lacksAt_zero, ← level_eq]
        simp only [unended, Bool.false_eq_true, if_false]
        refine (levelRow_stopsAtFirst level_sized).bind fun _ merged _ => ?_
        rw [readings_eq, map_askedOf going]
        have tails : ∀ stream ∈ left :: others.map List.tail, levels ≤ stream.length := by
          rw [← @List.tail_cons _ (Except.ok row) left, ← List.map_cons, List.forall_mem_map]
          intro stream hs
          rw [List.length_tail]
          exact Nat.le_sub_one_of_lt (common stream hs)
        have tails_end : ∃ stream ∈ left :: others.map List.tail, stream.length = levels := by
          obtain ⟨stream, hs, length⟩ := ends
          refine ⟨stream.tail, List.mem_map_of_mem (f := List.tail) hs, ?_⟩
          rw [List.length_tail, length, Nat.add_sub_cancel]
        refine (ih (rows ++ [merged]) (count + 1) (by simp [sized]) tails tails_end).mono ?_
        intro given' left_eq
        rw [left_eq, Nat.add_assoc, Nat.add_comm 1]
        simp only [List.map_cons, List.map_map, Function.comp_def, List.drop_tail, List.drop_succ_cons]

/-! ### Merging -/

theorem columns_stopsAtFirst (c : Comparison) (titles : List String) :
    StopsAtFirst (c.columnFault? titles).toList (fun _ => True) (c.columns titles) := by
  unfold columnFault?
  cases c.columns titles with
  | error fault => rfl
  | ok columns => exact ⟨columns, rfl, trivial⟩

theorem firstEmpty_stopsAtFirst (schemes : List Scheme) (table : ComparedTable) :
    StopsAtFirst (emptySchemes schemes) (fun _ => True)
      (match firstEmpty (schemes.map fun s => (s.title, s.rows.length)) with
        | some title => .error (.emptyScheme title)
        | none => .ok table) := by
  induction schemes with
  | nil => exact ⟨table, rfl, trivial⟩
  | cons s rest ih =>
    obtain ⟨title, rows⟩ := s
    cases rows with
    | nil => rfl
    | cons item left => exact ih

/-- A merge stops at the first of its faults. -/
theorem merge_stopsAtFirst {first : Scheme} {others : List Scheme} {m : Nat}
    (least : ((first :: others).map fun s => s.rows.length).min? = some m) :
    StopsAtFirst (c.failures first others m) (fun _ => True) (c.merge (first :: others)) := by
  obtain ⟨m_mem, m_le⟩ := List.min?_eq_some_iff.mp least
  have common : ∀ stream ∈ first.rows :: others.map Scheme.rows, m ≤ stream.length := by
    rw [← List.map_cons, List.forall_mem_map]
    exact fun s hs => m_le _ (List.mem_map_of_mem hs)
  have ends : ∃ stream ∈ first.rows :: others.map Scheme.rows, stream.length = m := by
    obtain ⟨s, hs, length⟩ := List.mem_map.mp m_mem
    exact ⟨s.rows, List.mem_map_of_mem (f := Scheme.rows) hs, length⟩
  have started : ((others.map Scheme.rows).map fun stream => Reading.mk stream 0 false) =
      others.map fun s => Reading.start s.rows := List.map_map
  have read := @lockstep_stopsAtFirst c ((first :: others).map Scheme.title) _ _ _ [] 0
    (by simp) common ends
  rw [started] at read
  refine (columns_stopsAtFirst c _).bind fun _ columns _ => ?_
  refine read.bind ?_
  rintro - ⟨rows, readings⟩ readings_eq
  cases (show readings = _ from readings_eq)
  have behind : faultsAfter ((first :: others).map Scheme.rows) m =
      faultsAfter (((first :: others).map Scheme.rows).map fun stream => stream.drop m) 0 := by
    simp only [faultsAfter, List.flatMap_map, List.drop_drop]
  have counted : ((first :: others).map Scheme.title).zip
      ((((first :: others).map Scheme.rows).map fun stream => stream.drop m).map
        fun stream => 0 + m + stream.length) =
      (first :: others).map fun s => (s.title, s.rows.length) := by
    rw [List.map_map, List.map_map, List.zip_map']
    refine List.map_congr_left fun s hs => ?_
    have long := common s.rows (List.mem_map_of_mem (f := Scheme.rows) hs)
    simp only [Function.comp_apply, List.length_drop, Prod.mk.injEq, true_and]
    omega
  have drained := drainAll_stopsAtFirst (0 + m)
    (((first :: others).map Scheme.rows).map fun stream => stream.drop m)
  rw [← behind] at drained
  refine drained.bind fun _ lengths lengths_eq => ?_
  rw [lengths_eq, counted]
  exact firstEmpty_stopsAtFirst _ _

/-! ### What can fail -/

theorem fault?_eq_some_iff {item : Except Fault Row} {fault : Fault} :
    fault? item = some fault ↔ item = .error fault := by
  cases item <;> simp [fault?]

theorem mem_faultsAt_iff {streams : List RowStream} {i : Nat} {fault : Fault} :
    fault ∈ faultsAt streams i ↔ ∃ stream ∈ streams, stream[i]? = some (.error fault) := by
  simp [faultsAt, faultAt?, Option.bind_eq_some_iff, fault?_eq_some_iff]

theorem mem_faultsAfter_iff {streams : List RowStream} {i : Nat} {fault : Fault} :
    fault ∈ faultsAfter streams i ↔
      ∃ stream ∈ streams, ∃ j, stream[i + 1 + j]? = some (.error fault) := by
  simp only [faultsAfter, List.mem_flatMap, List.mem_filterMap, fault?_eq_some_iff,
    exists_eq_right, List.mem_iff_getElem? (l := List.drop _ _), List.getElem?_drop]

theorem rowAt?_eq_some_iff {stream : RowStream} {i : Nat} {row : Row} :
    stream.rowAt? i = some row ↔ stream[i]? = some (.ok row) := by
  unfold rowAt?
  rcases stream[i]? with _ | _ | _ <;> simp [Except.toOption]

theorem lack?_eq_some_iff {row : Row} {column : String} {fault : Fault} :
    row.lack? column = some fault ↔
      row.get? column = none ∧ fault = .incompleteRecord column row.describe := by
  unfold Row.lack?
  cases row.get? column <;> simp [eq_comm]

/-- A level lacks the axis of the first scheme or a quantity of some scheme. -/
theorem exists_lack_iff {first : RowStream} {others : List RowStream} {i : Nat} :
    (∃ fault, fault ∈ c.lacksAt first others i) ↔
      (∃ row, first[i]? = some (.ok row) ∧ row.get? c.axis = none) ∨
        ∃ stream ∈ first :: others, ∃ row, stream[i]? = some (.ok row) ∧
          ∃ quantity ∈ c.quantities, row.get? quantity = none := by
  simp only [lacksAt, List.mem_append, Option.mem_toList, Option.bind_eq_some_iff, List.mem_flatMap,
    List.mem_filterMap, rowAt?_eq_some_iff, lack?_eq_some_iff]
  constructor
  · rintro ⟨fault, ⟨row, there, absent, -⟩ | ⟨quantity, hq, stream, hs, row, there, absent, -⟩⟩
    · exact .inl ⟨row, there, absent⟩
    · exact .inr ⟨stream, hs, row, there, quantity, hq, absent⟩
  · rintro (⟨row, there, absent⟩ | ⟨stream, hs, row, there, quantity, hq, absent⟩)
    · exact ⟨_, .inl ⟨row, there, absent, rfl⟩⟩
    · exact ⟨_, .inr ⟨quantity, hq, stream, hs, row, there, absent, rfl⟩⟩

/-- Every fault of a stream is met: at a level, at the position behind the levels, or
after it. -/
theorem exists_fault_iff {streams : List RowStream} (m : Nat) :
    (∃ stream ∈ streams, ∃ fault, .error fault ∈ stream) ↔
      (∃ i < m, ∃ fault, fault ∈ faultsAt streams i) ∨ (∃ fault, fault ∈ faultsAt streams m) ∨
        ∃ fault, fault ∈ faultsAfter streams m := by
  simp only [mem_faultsAt_iff, mem_faultsAfter_iff]
  constructor
  · rintro ⟨stream, hs, fault, mem⟩
    obtain ⟨i, there⟩ := List.mem_iff_getElem?.mp mem
    rcases Nat.lt_trichotomy i m with below | rfl | above
    · exact .inl ⟨i, below, fault, stream, hs, there⟩
    · exact .inr (.inl ⟨fault, stream, hs, there⟩)
    · refine .inr (.inr ⟨fault, stream, hs, i - (m + 1), ?_⟩)
      rw [Nat.add_sub_cancel' above, there]
  · rintro (⟨i, -, fault, stream, hs, there⟩ | ⟨fault, stream, hs, there⟩ | ⟨fault, stream, hs, j, there⟩)
    all_goals exact ⟨stream, hs, fault, List.mem_of_getElem? there⟩

theorem exists_columnFault_iff :
    (∃ fault, fault ∈ (c.columnFault? titles).toList) ↔ ∃ fault, c.columns titles = .error fault := by
  unfold columnFault?
  cases c.columns titles <;> simp

theorem exists_emptyScheme_iff {schemes : List Scheme} :
    (∃ fault, fault ∈ emptySchemes schemes) ↔ ∃ s ∈ schemes, s.rows = [] := by
  simp [emptySchemes]

theorem exists_levelFault_iff {first : RowStream} {others : List RowStream} {levels : Nat} :
    (∃ fault, fault ∈ c.levelFaults first others levels) ↔
      (∃ i < levels, ∃ fault, fault ∈ faultsAt (first :: others) i) ∨
      (∃ i < levels, ∃ fault, fault ∈ c.lacksAt first others i) ∨
      ∃ fault, fault ∈ faultsAt (first :: others) levels := by
  simp only [levelFaults, List.mem_append, List.mem_flatMap, List.mem_range, exists_or]
  constructor
  · rintro (⟨fault, i, below, met | met⟩ | met)
    · exact .inl ⟨i, below, fault, met⟩
    · exact .inr (.inl ⟨i, below, fault, met⟩)
    · exact .inr (.inr met)
  · rintro (⟨i, below, fault, met⟩ | ⟨i, below, fault, met⟩ | met)
    · exact .inl ⟨fault, i, below, .inl met⟩
    · exact .inl ⟨fault, i, below, .inr met⟩
    · exact .inr met

/-- The faults of a merge are of four kinds. -/
theorem exists_failure_iff {first : Scheme} {others : List Scheme} {m : Nat} :
    (∃ fault, fault ∈ c.failures first others m) ↔
      (∃ fault, c.columns ((first :: others).map Scheme.title) = .error fault) ∨
      (∃ s ∈ first :: others, ∃ fault, .error fault ∈ s.rows) ∨
      (∃ i < m, (∃ row, first.rows[i]? = some (.ok row) ∧ row.get? c.axis = none) ∨
        ∃ s ∈ first :: others, ∃ row, s.rows[i]? = some (.ok row) ∧
          ∃ quantity ∈ c.quantities, row.get? quantity = none) ∨
      ∃ s ∈ first :: others, s.rows = [] := by
  have of_rows : ∀ P : RowStream → Prop,
      (∃ s ∈ first :: others, P s.rows) ↔ ∃ stream ∈ first.rows :: others.map Scheme.rows, P stream := by
    intro P
    rw [← List.map_cons]
    simp only [List.mem_map, exists_exists_and_eq_and]
  have lacking : ∀ i, (∃ fault, fault ∈ c.lacksAt first.rows (others.map Scheme.rows) i) ↔
      (∃ row, first.rows[i]? = some (.ok row) ∧ row.get? c.axis = none) ∨
        ∃ s ∈ first :: others, ∃ row, s.rows[i]? = some (.ok row) ∧
          ∃ quantity ∈ c.quantities, row.get? quantity = none := by
    intro i
    rw [exists_lack_iff, of_rows fun stream => ∃ row : Row, stream[i]? = some (.ok row) ∧
      ∃ quantity ∈ c.quantities, row.get? quantity = none]
  rw [of_rows fun stream => ∃ fault, .error fault ∈ stream, exists_fault_iff m]
  simp only [← lacking, ← exists_columnFault_iff, ← exists_emptyScheme_iff]
  simp only [failures, List.mem_append, exists_or, exists_levelFault_iff, List.map_cons]
  simp only [or_assoc, or_left_comm]

/-- A merge of schemes of which the shortest has `m` items ends with the first of its
faults: of its columns; then, level by level, of the streams and of the columns that
the level lacks; then of the streams at the next position; then of what they have
left; and of the schemes without rows. So it fails exactly if its columns are not
accepted, a stream holds a fault anywhere, a common level lacks the axis or a
quantity, or a scheme is empty. -/
theorem merge_failures {first : Scheme} {others : List Scheme} {m : Nat}
    (least : ((first :: others).map fun s => s.rows.length).min? = some m) :
    (∀ fault, c.merge (first :: others) = .error fault ↔
      (c.failures first others m).head? = some fault) ∧
    ((∃ fault, c.merge (first :: others) = .error fault) ↔
      (∃ fault, c.columns ((first :: others).map Scheme.title) = .error fault) ∨
      (∃ s ∈ first :: others, ∃ fault, .error fault ∈ s.rows) ∨
      (∃ i < m, (∃ row, first.rows[i]? = some (.ok row) ∧ row.get? c.axis = none) ∨
        ∃ s ∈ first :: others, ∃ row, s.rows[i]? = some (.ok row) ∧
          ∃ quantity ∈ c.quantities, row.get? quantity = none) ∨
      ∃ s ∈ first :: others, s.rows = []) := by
  have stops := merge_stopsAtFirst (c := c) least
  exact ⟨fun fault => stops.error_iff, stops.fails_iff.trans exists_failure_iff⟩

/-- A fault behind the only row of a scheme, and a scheme without rows. -/
def faultBesideEmpty : Scheme × List Scheme :=
  (⟨"a", [.ok (Row.ofPairs [("h", .text "1"), ("e", .text "2")]),
    .error (.malformedRow "a.csv" 3 2 1)]⟩, [⟨"b", []⟩])

/-- The fault is met before the empty scheme. -/
theorem merge_faultBesideEmpty :
    let c : Comparison := ⟨"h", ["e"]⟩
    let schemes := faultBesideEmpty.1 :: faultBesideEmpty.2
    (schemes.map fun s => s.rows.length).min? = some 0 ∧
      c.merge schemes = .error (.malformedRow "a.csv" 3 2 1) := by
  intro c schemes
  have least : (schemes.map fun s => s.rows.length).min? = some 0 := by decide
  refine ⟨least, ((merge_failures least).1 _).mpr ?_⟩
  rfl

end Comparison

end RefinementTables
