import Mathlib.Data.Finset.Card
import RefinementTables.Proofs.Convergence.Stream

/-!
The samples that a fit is made from.

* `observe_map` — what one row adds to the samples of every quantity: the step lemma.
* `samples_progressFrom` — after some items, the samples of a quantity are those of the
  rows that came out, in their order.
* `highest_le_lowest_iff` — the least and the greatest axis value are one exactly if
  all are.
* `fittedOrder_eq_none_iff` — samples have no fitted order if they have fewer than two
  axis values.
* `samples_of_rowsOut` — both for a stream, after any number of its items.
-/

namespace RefinementTables

namespace Study

variable {s : Study} {p : Progress}

/-- The sample of a quantity in a row, if the axis and the quantity are both measured. -/
def sampleOf (s : Study) (quantity : String) (row : Row) : Option Sample :=
  (row.measurement? s.axis).bind fun h =>
    (row.measurement? quantity).map fun q => ⟨h.log, q.log⟩

/-! ### One row -/

theorem sampleOf_of_ok {row : Row} {h : Binary64} (axis : row.measure s.axis = .ok h)
    (quantity : String) : s.sampleOf quantity row = sample? row h quantity := by
  rw [sampleOf, Row.measure_ok_iff.mp axis, Option.bind_some, sample?]
  cases found : row.measure quantity with
  | ok q => rw [Row.measure_ok_iff.mp found, Option.map_some]
  | error fault => rw [Row.measurement?_of_error found, Option.map_none]

theorem sampleOf_of_error {row : Row} {fault : Fault} (axis : row.measure s.axis = .error fault)
    (quantity : String) : s.sampleOf quantity row = none := by
  rw [sampleOf, Row.measurement?_of_error axis, Option.bind_none]

/-- The step lemma: each quantity gets the sample that it has in the row, whatever the
others have. -/
theorem observe_map (row : Row) (seen : String → List Sample) :
    s.observe row (s.quantities.map seen) =
      s.quantities.map fun quantity => seen quantity ++ (s.sampleOf quantity row).toList := by
  rw [observe]
  cases axis : row.measure s.axis with
  | error fault => simp only [sampleOf_of_error axis, Option.toList_none, List.append_nil]
  | ok h => simp only [sampleOf_of_ok axis, List.zipWith_map_left, List.zipWith_self]

/-! ### Streams -/

/-- The samples after some items: to those that were there each quantity has added the
samples of the rows that came out, in the order of the rows. -/
theorem samples_progressFrom {seen : String → List Sample}
    (held : p.samples = s.quantities.map seen) (stream : RowStream) (n : Nat) :
    (progressFrom p ((s.stepsFrom p stream).take n)).samples =
      s.quantities.map fun quantity =>
        seen quantity ++ (s.rowsOutFrom p stream n).filterMap (s.sampleOf quantity) := by
  induction stream generalizing p seen n with
  | nil => simpa [progressFrom, stepsFrom, rowsOutFrom] using held
  | cons item rest ih =>
    cases n with
    | zero => simpa [progressFrom, rowsOutFrom] using held
    | succ n =>
      rw [stepsFrom_cons, List.take_succ_cons, progressFrom_cons]
      simp only [rowsOutFrom_succ]
      rcases step_cases s p item with ⟨row, values, rfl, -, out, after⟩ | ⟨fault, -, out, same⟩
      · have observed : (s.step p (.ok row)).after.samples = s.quantities.map fun quantity =>
            seen quantity ++ (s.sampleOf quantity row).toList := by
          rw [after, held, observe_map]
        have came_out : (if (s.step p (.ok row)).item.isOk = true then
            (Except.ok row : Except Fault Row).toOption else none).toList = [row] := by
          rw [out]
          rfl
        rw [ih observed, came_out]
        simp only [List.singleton_append, List.filterMap_cons, List.append_assoc]
        refine List.map_congr_left fun quantity _ => ?_
        cases s.sampleOf quantity row <;> rfl
      · have unchanged : (s.step p item).after.samples = s.quantities.map seen := by
          rw [same, held]
        rw [ih unchanged, out]
        rfl

end Study

/-! ### Ranks -/

namespace Binary64

theorem leastRank_le (x : Binary64) : leastRank ≤ x.rank := by
  have bound := x.magnitude_lt
  rw [rank, leastRank]
  split <;> omega

theorem rank_le (x : Binary64) : x.rank ≤ greatestRank := by
  have bound := x.magnitude_lt
  rw [rank, greatestRank]
  split <;> omega

/-- Numbers of one rank are one number. -/
theorem rank_injective : Function.Injective rank := by
  rintro ⟨negative, magnitude, bound⟩ ⟨negative', magnitude', bound'⟩ same
  cases negative <;> cases negative' <;> simp [rank] at same ⊢ <;> omega

end Binary64

/-! ### Fitted orders -/

namespace Sample

theorem foldl_max_le_iff {ranks : List Int} {start bound : Int} :
    ranks.foldl max start ≤ bound ↔ start ≤ bound ∧ ∀ r ∈ ranks, r ≤ bound := by
  induction ranks generalizing start with
  | nil => simp
  | cons r ranks ih => rw [List.foldl_cons, ih, Int.max_le, List.forall_mem_cons, and_assoc]

theorem le_foldl_min_iff {ranks : List Int} {start bound : Int} :
    bound ≤ ranks.foldl min start ↔ bound ≤ start ∧ ∀ r ∈ ranks, bound ≤ r := by
  induction ranks generalizing start with
  | nil => simp
  | cons r ranks ih => rw [List.foldl_cons, ih, Int.le_min, List.forall_mem_cons, and_assoc]

variable {samples : List Sample} {bound : Int}

theorem highest_le_iff : highest samples ≤ bound ↔
    Binary64.leastRank ≤ bound ∧ ∀ a ∈ samples.map lnH, a.rank ≤ bound := by
  rw [highest, foldl_max_le_iff, List.forall_mem_map, List.forall_mem_map]

theorem le_lowest_iff : bound ≤ lowest samples ↔
    bound ≤ Binary64.greatestRank ∧ ∀ b ∈ samples.map lnH, bound ≤ b.rank := by
  rw [lowest, le_foldl_min_iff, List.forall_mem_map, List.forall_mem_map]

/-- The ends of the samples meet or cross exactly if no two of them differ in `ln h`. -/
theorem highest_le_lowest_iff (samples : List Sample) :
    highest samples ≤ lowest samples ↔
      ∀ a ∈ samples.map lnH, ∀ b ∈ samples.map lnH, a = b := by
  constructor
  · intro meet
    have ordered : ∀ a ∈ samples.map lnH, ∀ b ∈ samples.map lnH, a.rank ≤ b.rank := by
      intro a ha
      have below := (highest_le_iff.mp meet).2 a ha
      exact (le_lowest_iff.mp below).2
    intro a ha b hb
    exact Binary64.rank_injective (Int.le_antisymm (ordered a ha b hb) (ordered b hb a ha))
  · intro same
    -- The ends stand at the starts of the folds where there are no samples.
    have start : Binary64.leastRank ≤ lowest samples :=
      le_lowest_iff.mpr ⟨by decide, fun b _ => b.leastRank_le⟩
    refine highest_le_iff.mpr ⟨start, ?_⟩
    intro a ha
    refine le_lowest_iff.mpr ⟨a.rank_le, ?_⟩
    intro b hb
    rw [same a ha b hb]

theorem isVertical_iff (samples : List Sample) :
    isVertical samples = true ↔ (samples.map lnH).toFinset.card < 2 := by
  have few : samples.length < 2 → (samples.map lnH).toFinset.card < 2 := by
    intro short
    calc (samples.map lnH).toFinset.card
        ≤ (samples.map lnH).length := List.toFinset_card_le _
      _ = samples.length := List.length_map _
      _ < 2 := short
  have one : highest samples ≤ lowest samples ↔ (samples.map lnH).toFinset.card < 2 := by
    rw [highest_le_lowest_iff, Nat.lt_succ_iff, Finset.card_le_one]
    simp only [List.mem_toFinset]
  rw [isVertical, Bool.or_eq_true, decide_eq_true_iff, decide_eq_true_iff, one]
  exact or_iff_right_of_imp few

/-- There is a fitted order exactly if there are two different axis values. -/
theorem fittedOrder_eq_none_iff (samples : List Sample) :
    fittedOrder samples = none ↔ (samples.map lnH).toFinset.card < 2 := by
  rw [fittedOrder, ← isVertical_iff]
  cases isVertical samples <;> simp

end Sample

namespace Study

/-- After any number of items of a stream, the samples of each quantity are those of the
rows that came out so far, in their order: of the rows that measure the axis and this
quantity, whatever else they measure. There is one order for each quantity, and there is
none in its place exactly if its samples have fewer than two axis values. -/
theorem samples_of_rowsOut (s : Study) (stream : RowStream) (n : Nat) :
    let reached := s.progressAfter ((s.augment stream).take n)
    let samples := fun quantity => (s.rowsOut stream n).filterMap (s.sampleOf quantity)
    reached.samples = s.quantities.map samples ∧
      reached.orders.length = s.quantities.length ∧
      ∀ j : Nat, reached.orders[j]? = some none ↔
        ∃ quantity, s.quantities[j]? = some quantity ∧
          ((samples quantity).map Sample.lnH).toFinset.card < 2 := by
  intro reached samples
  have none_yet : (Progress.start s).samples = s.quantities.map fun _ => [] := rfl
  have held : reached.samples = s.quantities.map samples := samples_progressFrom none_yet stream n
  have orders : reached.orders = s.quantities.map fun quantity =>
      Sample.fittedOrder (samples quantity) := by
    rw [Progress.orders, held, List.map_map]
    rfl
  refine ⟨held, by rw [orders, List.length_map], ?_⟩
  intro j
  rw [orders, List.getElem?_map, Option.map_eq_some_iff]
  simp only [Sample.fittedOrder_eq_none_iff]

end Study

end RefinementTables
