import RefinementTables.Comparison

/-!
Reading streams of rows in lockstep.

A stream that has ended is noticed one level late: by then the longer ones have
given a row that belongs to no level, and what they have left is read to be
counted. The lengths are right all the same.

* `Levels` — some rows are those of all levels that the streams have in common.
* `lockstep_levels` — reading in lockstep merges these levels and counts every
  stream in full.
-/

namespace RefinementTables

open Comparison

variable {c : Comparison} {titles : List String} {first : List Row} {others : List (List Row)}

/-! ### Reading -/

namespace Reading

/-- A stream of rows of which some have been read. -/
def of (count : Nat) (left : List Row) : Reading := ⟨left.map .ok, count, false⟩

/-- The same after it was asked for a row. -/
def asked (count : Nat) : List Row → Reading
  | [] => ⟨[], count, true⟩
  | _ :: left => of (count + 1) left

theorem next_of (count : Nat) (left : List Row) :
    (of count left).next = .ok (left.head?, asked count left) := by
  cases left <;> rfl

theorem ended_asked (count : Nat) (left : List Row) :
    (asked count left).ended = true ↔ left = [] := by
  cases left <;> simp [asked, of]

theorem countRows_map_ok (count : Nat) (left : List Row) :
    countRows count (left.map .ok) = .ok (count + left.length) := by
  induction left generalizing count with
  | nil => rfl
  | cons row left ih =>
    rw [List.map_cons, countRows, ih, List.length_cons, Nat.add_assoc, Nat.add_comm 1]

theorem drain_of (count : Nat) (left : List Row) :
    (of count left).drain = .ok (count + left.length) :=
  countRows_map_ok count left

/-- Whether or not its end was met, every row of a stream counts once. -/
theorem drain_asked (count : Nat) (left : List Row) :
    (asked count left).drain = .ok (count + left.length) := by
  cases left with
  | nil => rfl
  | cons row left => rw [asked, drain_of, List.length_cons, Nat.add_assoc, Nat.add_comm 1]

end Reading

namespace Comparison

theorem nextLevel_of (count : Nat) (streams : List (List Row)) :
    nextLevel (streams.map (Reading.of count)) =
      .ok (streams.filterMap List.head?, streams.map (Reading.asked count)) := by
  induction streams with
  | nil => rfl
  | cons left rest ih =>
    rw [List.map_cons, nextLevel, Reading.next_of, ih]
    cases left <;> rfl

theorem drainAll_asked (count : Nat) (streams : List (List Row)) :
    drainAll (streams.map (Reading.asked count)) =
      .ok (streams.map fun left => count + left.length) := by
  induction streams with
  | nil => rfl
  | cons left rest ih =>
    rw [List.map_cons, drainAll, Reading.drain_asked, ih]
    rfl

/-- Where no stream has ended, all go on together. -/
theorem map_asked {streams : List (List Row)} (going : ∀ left ∈ streams, left ≠ [])
    (count : Nat) :
    streams.map (Reading.asked count) = (streams.map List.tail).map (Reading.of (count + 1)) := by
  rw [List.map_map]
  refine List.map_congr_left ?_
  intro left hl
  cases left with
  | nil => exact absurd rfl (going [] hl)
  | cons row left => rfl

theorem map_head?_eq {streams : List (List Row)} (going : ∀ left ∈ streams, left ≠ []) :
    streams.map (fun left => left[0]?) = (streams.filterMap List.head?).map some := by
  induction streams with
  | nil => rfl
  | cons left rest ih =>
    cases left with
    | nil => exact absurd rfl (going [] List.mem_cons_self)
    | cons row left =>
      rw [List.map_cons, ih fun left hl => going left (List.mem_cons_of_mem _ hl)]
      rfl

/-! ### Levels -/

/-- A level of the streams: the row of the first and those of the others. -/
def LevelAt (first : List Row) (others : List (List Row)) (i : Nat) (row : Row)
    (level : List Row) : Prop :=
  first[i]? = some row ∧ others.map (fun left => left[i]?) = level.map some

/-- A level of what the streams have left is a level of theirs, one further. -/
theorem LevelAt.succ {i : Nat} {row : Row} {left level : List Row}
    (h : LevelAt left (others.map List.tail) i row level) (head : Row) :
    LevelAt (head :: left) others (i + 1) row level := by
  refine ⟨h.1, ?_⟩
  rw [← h.2, List.map_map]
  exact List.map_congr_left fun stream _ => by cases stream <;> rfl

/-- The rows are those of all levels that the streams have in common. -/
structure Levels (c : Comparison) (titles : List String) (first : List Row)
    (others : List (List Row)) (rows : List Row) : Prop where
  common : ∀ left ∈ first :: others, rows.length ≤ left.length
  ends : ∃ left ∈ first :: others, left.length = rows.length
  merged : ∀ i merged, rows[i]? = some merged →
    ∃ row level, LevelAt first others i row level ∧ c.levelRow titles row level = .ok merged

/-- Where a stream has no row left there is no further level. -/
theorem levels_nil (ended : ∃ left ∈ first :: others, left = []) :
    Levels c titles first others [] where
  common _ _ := Nat.zero_le _
  ends := by
    obtain ⟨left, hl, rfl⟩ := ended
    exact ⟨[], hl, rfl⟩
  merged _ _ h := by simp at h

/-- Where every stream has one, its level comes before the others. -/
theorem Levels.cons {row merged : Row} {left level rows : List Row}
    (going : ∀ left ∈ others, left ≠ [])
    (level_at : others.map (fun left => left[0]?) = level.map some)
    (now : c.levelRow titles row level = .ok merged)
    (later : Levels c titles left (others.map List.tail) rows) :
    Levels c titles (row :: left) others (merged :: rows) where
  common := by
    intro stream hs
    rcases List.mem_cons.mp hs with rfl | hs
    · exact Nat.succ_le_succ (later.common left List.mem_cons_self)
    · have bound := later.common stream.tail (List.mem_cons_of_mem _ (List.mem_map_of_mem hs))
      have long := List.length_pos_iff.mpr (going stream hs)
      rw [List.length_tail] at bound
      rw [List.length_cons]
      omega
  ends := by
    obtain ⟨stream, hs, length⟩ := later.ends
    rcases List.mem_cons.mp hs with rfl | hs
    · exact ⟨row :: stream, List.mem_cons_self, congrArg Nat.succ length⟩
    · obtain ⟨whole, hw, rfl⟩ := List.mem_map.mp hs
      have long := List.length_pos_iff.mpr (going whole hw)
      refine ⟨whole, List.mem_cons_of_mem _ hw, ?_⟩
      rw [List.length_tail] at length
      rw [List.length_cons]
      omega
  merged := by
    intro i found hi
    cases i with
    | zero =>
      cases hi
      exact ⟨row, level, ⟨rfl, level_at⟩, now⟩
    | succ i =>
      obtain ⟨row', level', there, merged⟩ := later.merged i found hi
      exact ⟨row', level', there.succ row, merged⟩

/-- Reading streams of rows in lockstep merges all common levels, if each can be
merged, and counts every stream in full. -/
theorem lockstep_levels (rows : List Row) (count : Nat)
    (complete : ∀ i row level, LevelAt first others i row level →
      ∃ merged, c.levelRow titles row level = .ok merged) :
    ∃ levels readings,
      c.lockstep titles rows count (others.map (Reading.of count)) (first.map .ok) =
        .ok (rows ++ levels, readings) ∧
      drainAll readings = .ok ((first :: others).map fun left => count + left.length) ∧
      Levels c titles first others levels := by
  induction first generalizing others rows count with
  | nil =>
    refine ⟨[], Reading.asked count [] :: others.map (Reading.asked count), ?_, ?_, ?_⟩
    · rw [List.map_nil, lockstep, nextLevel_of, List.append_nil]
      rfl
    · exact drainAll_asked count ([] :: others)
    · exact levels_nil ⟨[], List.mem_cons_self, rfl⟩
  | cons row left ih =>
    rw [List.map_cons, lockstep, nextLevel_of]
    by_cases ended : ∃ stream ∈ others, stream = []
    · refine ⟨[], Reading.asked count (row :: left) :: others.map (Reading.asked count), ?_, ?_, ?_⟩
      · have met : (others.map (Reading.asked count)).any Reading.ended = true := by
          obtain ⟨stream, hs, rfl⟩ := ended
          exact List.any_eq_true.mpr ⟨_, List.mem_map_of_mem hs, rfl⟩
        rw [List.append_nil]
        exact if_pos met
      · exact drainAll_asked count ((row :: left) :: others)
      · obtain ⟨stream, hs, empty⟩ := ended
        exact levels_nil ⟨stream, List.mem_cons_of_mem _ hs, empty⟩
    · have going : ∀ stream ∈ others, stream ≠ [] := fun stream hs empty =>
        ended ⟨stream, hs, empty⟩
      have level_at := map_head?_eq going
      obtain ⟨merged, now⟩ := complete 0 row _ ⟨rfl, level_at⟩
      have unmet : (others.map (Reading.asked count)).any Reading.ended = false := by
        rw [List.any_eq_false]
        intro reading hr
        obtain ⟨stream, hs, rfl⟩ := List.mem_map.mp hr
        rw [Reading.ended_asked]
        exact going stream hs
      have later_complete : ∀ i row' level, LevelAt left (others.map List.tail) i row' level →
          ∃ merged, c.levelRow titles row' level = .ok merged := fun i row' level there =>
        complete (i + 1) row' level (there.succ row)
      obtain ⟨levels, readings, run, drained, later⟩ :=
        ih (rows ++ [merged]) (count + 1) later_complete
      refine ⟨merged :: levels, readings, ?_, ?_, later.cons going level_at now⟩
      · refine (if_neg (by simp [unmet])).trans ?_
        rw [now, map_asked going]
        refine run.trans ?_
        rw [List.append_assoc, List.singleton_append]
      · rw [drained, List.map_cons, List.map_cons, List.map_map, List.length_cons]
        have counted : others.map ((fun stream => count + 1 + stream.length) ∘ List.tail) =
            others.map fun stream => count + stream.length := by
          refine List.map_congr_left ?_
          intro stream hs
          have long := List.length_pos_iff.mpr (going stream hs)
          simp only [Function.comp_apply, List.length_tail]
          omega
        rw [counted, Nat.add_assoc, Nat.add_comm 1]

end Comparison

end RefinementTables
