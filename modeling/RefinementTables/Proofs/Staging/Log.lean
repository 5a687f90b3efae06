import RefinementTables.Proofs.Staging.Contents
import RefinementTables.Proofs.Staging.Move

/-!
The log of a commit.

The moves of a commit are followed in a log. Between two moves the tree is the
one before the commit with the outputs so far in place, and what they replaced
is kept aside (`Progress`).

* `progress_nil` — this holds before the first move.
* `Progress.step` — every move keeps it.
-/

namespace RefinementTables

open FileTree

/-! ### The log of a commit -/

/-- A finished move: the output, and what was at its place with the address to
which it was moved. -/
structure Move where
  staged : Staged
  saved : Option (Address × Node)

namespace Move

def record (m : Move) : Installed := ⟨m.staged.target, m.saved.map Prod.fst⟩

/-- The outputs of a log. -/
def outputs (log : List Move) : Batch := log.map staged

/-- Everything that was moved aside. -/
def kept (log : List Move) : List (Address × Node) := log.filterMap saved

theorem outputs_concat (log : List Move) (m : Move) :
    outputs (log ++ [m]) = outputs log ++ [m.staged] :=
  List.map_append

theorem kept_concat (log : List Move) (m : Move) : kept (log ++ [m]) = kept log ++ m.saved.toList := by
  cases h : m.saved <;> simp [kept, h]

theorem mem_kept_concat_iff {log : List Move} {m : Move} {a : Address} :
    a ∈ (kept (log ++ [m])).map Prod.fst ↔
      a ∈ (kept log).map Prod.fst ∨ m.saved.map Prod.fst = some a := by
  rw [kept_concat, List.map_append, List.mem_append]
  cases m.saved with
  | none => simp
  | some k => simp [eq_comm]

/-- Each move of a log wrote at its place and saved what the moves before it had
left there. -/
inductive Recorded (before : FileTree) : List Move → Prop where
  | nil : Recorded before []
  | snoc {log : List Move} {m : Move} {place : Place} {node : Node} :
      Recorded before log → m.staged.write? before = some (place, node) →
      m.saved.map Prod.snd = (outputs log).contentAfter before place →
      Recorded before (log ++ [m])

end Move

open Move

/-- The state of a commit after the moves of a log. -/
structure Progress (before : FileTree) (log : List Move) (now : FileTree) : Prop where
  ways : SameWays before now
  tree : now.IsTree
  unused : before.unused ≤ now.unused
  recorded : Recorded before log
  named : ∀ place, now.get? (.named place) = (outputs log).contentAfter before place
  kept_held : ∀ k ∈ kept log, now.get? k.1 = some k.2
  kept_new : ∀ k ∈ kept log, ∃ directory serial, k.1 = .temporary directory serial ∧
    before.unused ≤ serial ∧ serial < now.unused ∧ before.get? k.1 = none
  kept_distinct : ((kept log).map Prod.fst).Nodup
  others : ∀ directory serial, .temporary directory serial ∉ (kept log).map Prod.fst →
    now.get? (.temporary directory serial) =
      if .temporary directory serial ∈ (outputs log).temporaries before then none
      else before.get? (.temporary directory serial)

variable {before now t : FileTree} {log : List Move} {s : Staged} {rest batch : Batch}

theorem progress_nil (tree : t.IsTree) : Progress t [] t where
  ways := .refl t
  tree := tree
  unused := Nat.le_refl _
  recorded := .nil
  named _ := rfl
  kept_held := by simp [kept]
  kept_new := by simp [kept]
  kept_distinct := List.nodup_nil
  others _ _ _ := rfl

/-- What was moved aside is not one of the batch's temporaries, whose serial
numbers were given before. -/
theorem Progress.not_kept (progress : Progress before log now) {directory : Place} {serial : Nat}
    (issued : serial < before.unused) :
    .temporary directory serial ∉ (kept log).map Prod.fst := by
  intro h
  obtain ⟨k, hk, same⟩ := List.mem_map.mp h
  obtain ⟨directory', serial', address, lower, -, -⟩ := progress.kept_new k hk
  rw [address] at same
  cases same
  exact absurd issued (Nat.not_lt.mpr lower)

/-- What the next output writes is what it would have written before the commit. -/
theorem Progress.write?_eq (progress : Progress before log now)
    (held : (outputs log ++ s :: rest).Held before) : s.write? now = s.write? before := by
  refine Staged.write?_congr progress.ways fun a temporary => ?_
  obtain ⟨directory, -, rfl⟩ := Staged.temporary?_eq_some_iff.mp temporary
  have issued := held.issued s (List.mem_append_right _ List.mem_cons_self)
  rw [progress.others _ _ (progress.not_kept issued), if_neg]
  intro h
  obtain ⟨p, hp, same⟩ := Batch.serial_of_mem_temporaries h
  have distinct := held.distinct
  rw [List.map_append, List.nodup_append] at distinct
  exact distinct.2.2 p.serial (List.mem_map_of_mem hp) s.serial (by simp) same

/-- After another move of the log every place holds the last content written
there. -/
theorem Progress.named_concat {place : Place} {node : Node} {saved : Option (Address × Node)}
    (progress : Progress before log now) (written : s.write? before = some (place, node))
    (moves : Moves s place node saved now t) (other : Place) :
    t.get? (.named other) = (outputs (log ++ [⟨s, saved⟩])).contentAfter before other := by
  rw [moves.named, outputs_concat, Batch.contentAfter]
  by_cases same : other = place
  · subst same
    rw [if_pos rfl, Batch.contents_concat_same written, List.getLast?_concat, Option.some_or]
  · rw [if_neg same, progress.named, Batch.contents_concat_other written (Ne.symm same)]
    rfl

/-- A move takes nothing that was moved aside before. -/
theorem Progress.kept_stays {place : Place} {node : Node} {saved : Option (Address × Node)}
    (progress : Progress before log now) (issued : s.serial < before.unused)
    (moves : Moves s place node saved now t) {k : Address × Node} (hk : k ∈ kept log) :
    t.get? k.1 = some k.2 := by
  obtain ⟨directory, serial, address, lower, -, -⟩ := progress.kept_new k hk
  have unsaved : saved.map Prod.fst ≠ some k.1 := by
    intro h
    obtain ⟨k', hk', same⟩ := Option.map_eq_some_iff.mp h
    have absent := now.get?_fresh place.dropLast
    rw [← (moves.saved_fresh k' hk').1, same, progress.kept_held k hk] at absent
    cases absent
  have foreign : s.temporary? now ≠ some k.1 := by
    intro h
    obtain ⟨_, -, same⟩ := Staged.temporary?_eq_some_iff.mp h
    rw [address] at same
    cases same
    exact absurd issued (Nat.not_lt.mpr lower)
  rw [address] at unsaved foreign ⊢
  rw [moves.temporary directory serial unsaved, if_neg foreign, ← address]
  exact progress.kept_held k hk

/-- The address that a move saves to is new to the commit. -/
theorem Progress.saved_new {place : Place} {node : Node} {saved : Option (Address × Node)}
    (progress : Progress before log now) (held : (outputs log ++ s :: rest).Held before)
    (moves : Moves s place node saved now t) {k : Address × Node} (hk : k ∈ saved) :
    k.1 ∉ (kept log).map Prod.fst ∧ ∃ directory serial, k.1 = .temporary directory serial ∧
      before.unused ≤ serial ∧ serial < t.unused ∧ before.get? k.1 = none := by
  obtain ⟨address, upper⟩ := moves.saved_fresh k hk
  have lower : before.unused ≤ now.freshSerial :=
    Nat.le_trans progress.unused (unused_le_freshSerial now)
  have absent : now.get? k.1 = none := by
    rw [address]
    exact now.get?_fresh place.dropLast
  have unkept : k.1 ∉ (kept log).map Prod.fst := by
    intro h
    obtain ⟨k', hk', same⟩ := List.mem_map.mp h
    rw [← same, progress.kept_held k' hk'] at absent
    cases absent
  refine ⟨unkept, place.dropLast, now.freshSerial, address, lower, upper, ?_⟩
  rw [address] at absent unkept ⊢
  rw [fresh, progress.others _ _ unkept, if_neg] at absent
  · exact absent
  · intro h
    obtain ⟨p, hp, same⟩ := Batch.serial_of_mem_temporaries h
    have issued := held.issued p (List.mem_append_left _ hp)
    rw [same] at issued
    exact absurd issued (Nat.not_lt.mpr lower)

/-- One move keeps the state of a commit. -/
theorem Progress.step {place : Place} {node : Node} {saved : Option (Address × Node)}
    (progress : Progress before log now) (held : (outputs log ++ s :: rest).Held before)
    (written : s.write? before = some (place, node)) (moves : Moves s place node saved now t) :
    Progress before (log ++ [⟨s, saved⟩]) t := by
  have issued := held.issued s (List.mem_append_right _ List.mem_cons_self)
  have mem_kept : ∀ {k}, k ∈ kept (log ++ [⟨s, saved⟩]) → k ∈ kept log ∨ k ∈ saved := by
    intro k hk
    rw [kept_concat, List.mem_append] at hk
    simpa using hk
  exact {
    ways := progress.ways.trans moves.ways
    tree := moves.tree
    unused := Nat.le_trans progress.unused moves.unused
    recorded := .snoc progress.recorded written (moves.saved_eq.trans (progress.named place))
    named := progress.named_concat written moves
    kept_held := by
      intro k hk
      rcases mem_kept hk with hk | hk
      · exact progress.kept_stays issued moves hk
      · exact moves.saved_held k hk
    kept_new := by
      intro k hk
      rcases mem_kept hk with hk | hk
      · obtain ⟨directory, serial, address, lower, upper, absent⟩ := progress.kept_new k hk
        exact ⟨directory, serial, address, lower, Nat.lt_of_lt_of_le upper moves.unused, absent⟩
      · exact (progress.saved_new held moves hk).2
    kept_distinct := by
      rw [kept_concat, List.map_append, List.nodup_append]
      refine ⟨progress.kept_distinct, ?_, fun a ha b hb => ?_⟩
      · cases saved <;> simp
      · obtain ⟨k, hk, rfl⟩ := List.mem_map.mp hb
        rintro rfl
        exact (progress.saved_new held moves (by simpa using hk)).1 ha
    others := by
      intro directory serial unkept
      rw [kept_concat, List.map_append, List.mem_append, not_or] at unkept
      have unsaved : saved.map Prod.fst ≠ some (.temporary directory serial) := by
        intro h
        obtain ⟨k, hk, same⟩ := Option.map_eq_some_iff.mp h
        exact unkept.2 (List.mem_map.mpr ⟨k, by simpa using hk, same⟩)
      rw [moves.temporary directory serial unsaved, outputs_concat, Batch.temporaries_append,
        Staged.temporary?_of_sameWays progress.ways, progress.others directory serial unkept.1]
      by_cases own : s.temporary? before = some (.temporary directory serial)
      · simp [Batch.temporaries, own]
      · simp [Batch.temporaries, own] }

end RefinementTables
