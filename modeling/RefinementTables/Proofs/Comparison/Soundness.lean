import RefinementTables.Comparison
import RefinementTables.Proofs.Checked

/-!
What a merge that succeeds has read.

A fault anywhere in a scheme ends a merge: the levels are read in order, and what
the longer streams have left is counted to the end. So a merge that gives a table
has met rows only.

* `lockstep_sound`, `drainAll_sound` — reading and counting without a fault have
  passed over every item.
* `merge_ok`, `merge_sound` — the parts of a merge that succeeds, and that all its
  schemes hold rows only.
-/

namespace RefinementTables

open Comparison

variable {c : Comparison} {titles : List String}

/-- A stream without a fault. -/
def FaultFree (stream : RowStream) : Prop :=
  ∀ item ∈ stream, ∃ row, item = .ok row

theorem faultFree_cons {item : Except Fault Row} {rest : RowStream} :
    FaultFree (item :: rest) ↔ (∃ row, item = .ok row) ∧ FaultFree rest :=
  List.forall_mem_cons

namespace Reading

variable {r r' : Reading}

/-- Where the end of a stream was met, nothing is left of it. -/
def Met (r : Reading) : Prop :=
  r.ended = true → r.left = []

/-- Asking for a row meets no fault, and what is left may still hold one. -/
theorem next_sound {row : Option Row} (met : r.Met) (asked : r.next = .ok (row, r')) :
    r'.Met ∧ (FaultFree r'.left → FaultFree r.left) := by
  unfold next at asked
  split at asked
  · next empty =>
    cases asked
    exact ⟨fun _ => empty, id⟩
  · cases asked
  · next row left rows =>
    cases asked
    constructor
    · intro ended
      rw [met ended] at rows
      cases rows
    · intro sound
      rw [rows]
      exact faultFree_cons.mpr ⟨⟨row, rfl⟩, sound⟩

theorem countRows_sound {count total : Nat} {left : RowStream}
    (counted : countRows count left = .ok total) : FaultFree left := by
  induction left generalizing count with
  | nil => exact fun _ mem => absurd mem (by simp)
  | cons item left ih =>
    cases item with
    | error fault => cases counted
    | ok row => exact faultFree_cons.mpr ⟨⟨row, rfl⟩, ih counted⟩

theorem drain_sound {length : Nat} (met : r.Met) (drained : r.drain = .ok length) :
    FaultFree r.left := by
  unfold drain at drained
  split at drained
  · next ended =>
    rw [met ended]
    exact fun _ mem => absurd mem (by simp)
  · exact countRows_sound drained

end Reading

namespace Comparison

theorem nextLevel_sound {level : List Row} {readings readings' : List Reading}
    (met : ∀ r ∈ readings, r.Met) (asked : nextLevel readings = .ok (level, readings')) :
    (∀ r ∈ readings', r.Met) ∧
      ((∀ r ∈ readings', FaultFree r.left) → ∀ r ∈ readings, FaultFree r.left) := by
  induction readings generalizing level readings' with
  | nil =>
    cases asked
    exact ⟨met, id⟩
  | cons r rest ih =>
    obtain ⟨met_r, met_rest⟩ := List.forall_mem_cons.mp met
    obtain ⟨⟨row, r'⟩, asked_r, h⟩ := bind_eq_ok_iff.mp asked
    obtain ⟨⟨rows, rest'⟩, asked_rest, h⟩ := bind_eq_ok_iff.mp h
    cases h
    obtain ⟨met_r', sound_r⟩ := Reading.next_sound met_r asked_r
    obtain ⟨met_rest', sound_rest⟩ := ih met_rest asked_rest
    refine ⟨List.forall_mem_cons.mpr ⟨met_r', met_rest'⟩, ?_⟩
    intro sound
    obtain ⟨first, later⟩ := List.forall_mem_cons.mp sound
    exact List.forall_mem_cons.mpr ⟨sound_r first, sound_rest later⟩

/-- Reading in lockstep meets no fault, and what is left may still hold one. -/
theorem lockstep_sound {rows found : List Row} {count : Nat} {others readings : List Reading}
    {first : RowStream} (met : ∀ r ∈ others, r.Met)
    (run : c.lockstep titles rows count others first = .ok (found, readings)) :
    (∀ r ∈ readings, r.Met) ∧
      ((∀ r ∈ readings, FaultFree r.left) → FaultFree first ∧ ∀ r ∈ others, FaultFree r.left) := by
  induction first generalizing rows count others with
  | nil =>
    obtain ⟨⟨level, others'⟩, asked, h⟩ := bind_eq_ok_iff.mp run
    cases h
    obtain ⟨met', sound'⟩ := nextLevel_sound met asked
    refine ⟨List.forall_mem_cons.mpr ⟨fun _ => rfl, met'⟩, ?_⟩
    intro sound
    obtain ⟨none_left, later⟩ := List.forall_mem_cons.mp sound
    exact ⟨none_left, sound' later⟩
  | cons item left ih =>
    cases item with
    | error fault => cases run
    | ok row =>
      obtain ⟨⟨level, others'⟩, asked, h⟩ := bind_eq_ok_iff.mp run
      obtain ⟨met', sound'⟩ := nextLevel_sound met asked
      simp only at h
      split at h
      · -- Another stream has ended, and what the first has left is still to be counted.
        cases h
        refine ⟨List.forall_mem_cons.mpr ⟨nofun, met'⟩, ?_⟩
        intro sound
        obtain ⟨still, later⟩ := List.forall_mem_cons.mp sound
        exact ⟨faultFree_cons.mpr ⟨⟨row, rfl⟩, still⟩, sound' later⟩
      · obtain ⟨merged, -, h⟩ := bind_eq_ok_iff.mp h
        obtain ⟨met_readings, sound_readings⟩ := ih met' h
        refine ⟨met_readings, ?_⟩
        intro sound
        obtain ⟨still, later⟩ := sound_readings sound
        exact ⟨faultFree_cons.mpr ⟨⟨row, rfl⟩, still⟩, sound' later⟩

theorem drainAll_sound {readings : List Reading} {lengths : List Nat}
    (met : ∀ r ∈ readings, r.Met) (drained : drainAll readings = .ok lengths) :
    ∀ r ∈ readings, FaultFree r.left := by
  induction readings generalizing lengths with
  | nil => simp
  | cons r rest ih =>
    obtain ⟨met_r, met_rest⟩ := List.forall_mem_cons.mp met
    obtain ⟨length, drained_r, h⟩ := bind_eq_ok_iff.mp drained
    obtain ⟨later, drained_rest, -⟩ := bind_eq_ok_iff.mp h
    exact List.forall_mem_cons.mpr ⟨Reading.drain_sound met_r drained_r, ih met_rest drained_rest⟩

/-! ### Merges -/

/-- The parts of a merge that succeeds. -/
theorem merge_ok {schemes : List Scheme} {table : ComparedTable}
    (merged : c.merge schemes = .ok table) :
    ∃ first others readings lengths, schemes = first :: others ∧
      c.columns (schemes.map Scheme.title) = .ok table.columns ∧
      c.lockstep (schemes.map Scheme.title) [] 0
        (others.map fun scheme => Reading.start scheme.rows) first.rows =
          .ok (table.rows, readings) ∧
      drainAll readings = .ok lengths := by
  cases schemes with
  | nil => cases merged
  | cons first others =>
    obtain ⟨columns, named, h⟩ := bind_eq_ok_iff.mp merged
    obtain ⟨⟨rows, readings⟩, run, h⟩ := bind_eq_ok_iff.mp h
    obtain ⟨lengths, drained, h⟩ := bind_eq_ok_iff.mp h
    simp only at h
    split at h
    · cases h
    · cases h
      exact ⟨first, others, readings, lengths, rfl, named, run, drained⟩

/-- A merge that succeeds has met rows only. -/
theorem merge_sound {schemes : List Scheme} {table : ComparedTable}
    (merged : c.merge schemes = .ok table) : ∀ scheme ∈ schemes, FaultFree scheme.rows := by
  obtain ⟨first, others, readings, lengths, rfl, -, run, drained⟩ := merge_ok merged
  have started : ∀ r ∈ others.map fun scheme => Reading.start scheme.rows, r.Met := by
    rw [List.forall_mem_map]
    intro scheme _ ended
    cases ended
  obtain ⟨met, sound⟩ := lockstep_sound started run
  obtain ⟨first_sound, others_sound⟩ := sound (drainAll_sound met drained)
  rw [List.forall_mem_map] at others_sound
  exact List.forall_mem_cons.mpr ⟨first_sound, others_sound⟩

end Comparison

end RefinementTables
