import RefinementTables.Proofs.Convergence.Between
import RefinementTables.Proofs.Convergence.Stream

/-!
Lenient studies over whole streams.

On rows that have all columns a lenient study fails only where an axis value is
repeated. The row that fails is not what the next one is compared with, but a row with
invalid measurements is.

* `step_lenient` — what becomes of one row after another: the step lemma.
* `stepsFrom_of_strict` — a stream that a strict study comes through takes the same
  steps in a lenient one.
* `augment_lenient` — both for whole streams.
-/

namespace RefinementTables.Study

variable {s : Study} {p : Progress} {before row : Row} {hBefore h : Binary64}

/-! ### Rate columns -/

theorem lookup_map_rateName (cell : String → Cell) {quantities : List String} {quantity : String}
    (mem : quantity ∈ quantities) :
    (quantities.map fun q => (rateName q, cell q)).lookup (rateName quantity) =
      some (cell quantity) := by
  induction quantities with
  | nil => cases mem
  | cons first rest ih =>
    rw [List.map_cons, List.lookup_cons]
    by_cases same : quantity = first
    · subst same
      simp
    · have different : (rateName quantity == rateName first) = false :=
        beq_false_of_ne fun equal => same (rateName_injective equal)
      rw [different]
      exact ih ((List.mem_cons.mp mem).resolve_left same)

/-- The rate of a quantity stands in its rate column, in place of what was there. -/
theorem get?_attach_map (s : Study) (row : Row) (rate : String → Rate) {quantity : String}
    (mem : quantity ∈ s.quantities) :
    (s.attach row (s.quantities.map rate)).get? (rateName quantity) =
      some (rate quantity).cell := by
  have paired : s.rateNames.zip ((s.quantities.map rate).map Rate.cell) =
      s.quantities.map fun q => (rateName q, (rate q).cell) := by
    rw [rateNames, List.map_map, List.zip_map']
    rfl
  rw [attach_eq_foldl, Row.get?_foldl_insert, paired, ← List.map_reverse,
    lookup_map_rateName (fun q => (rate q).cell) (List.mem_reverse.mpr mem), Option.some_or]

/-- A step with whose row a rate for each quantity comes out. -/
def Rated (s : Study) (step : Step) (rate : String → Rate) : Prop :=
  ∃ out, step.item = .ok out ∧
    ∀ quantity ∈ s.quantities, out.get? (rateName quantity) = some (rate quantity).cell

theorem rated_of_rates (rate : String → Rate) {passed : List Fault}
    (rates : s.rates p.previous row = ⟨passed, .ok (s.quantities.map rate)⟩) :
    s.Rated (s.step p (.ok row)) rate ∧ (s.step p (.ok row)).passed = passed := by
  rw [step, rates]
  exact ⟨⟨_, rfl, fun quantity mem => get?_attach_map s row rate mem⟩, rfl⟩

/-! ### One row after another -/

/-- What becomes of a row in a lenient study, by the last row that came out before it. -/
inductive LenientStep (s : Study) (row : Row) (step : Step) : Option Row → Prop where
  /-- A first row has no rates. -/
  | first (rated : s.Rated step fun _ => .undefined) (silent : step.passed = []) :
      LenientStep s row step none
  /-- A repeated axis value is a fault. -/
  | repeated {before : Row} {h : Binary64} (was : before.measurement? s.axis = some h)
      (is : row.measurement? s.axis = some h)
      (item : step.item = .error (.degenerateRefinement s.axis h row.location))
      (silent : step.passed = []) : LenientStep s row step (some before)
  /-- Without valid axis values there are no rates, and there is one warning. -/
  | invalidAxis {before : Row} {fault : Fault} (failed : pairFault? before row s.axis = some fault)
      (rated : s.Rated step fun _ => .undefined) (warned : step.passed = [fault]) :
      LenientStep s row step (some before)
  /-- Between two axis values each quantity has its own rate, and there is a warning for
  each that is invalid in one of the rows. -/
  | moved {before : Row} {hBefore h : Binary64} (was : before.measurement? s.axis = some hBefore)
      (is : row.measurement? s.axis = some h) (moved : h ≠ hBefore)
      (rated : s.Rated step (rateBetween before row hBefore h))
      (warned : step.passed = quantityFaults before row s.quantities) :
      LenientStep s row step (some before)

/-- The axis value of a row is that of the row before it. -/
def Repeats (s : Study) (before : Option Row) (row : Row) : Prop :=
  ∃ previous ∈ before, ∃ h, previous.measurement? s.axis = some h ∧
    row.measurement? s.axis = some h

/-- Of the four cases only the repeated axis value is a fault. -/
theorem LenientStep.fails_iff {before : Option Row} {step : Step}
    (treated : s.LenientStep row step before) :
    (∃ fault, step.item = .error fault) ↔ s.Repeats before row := by
  have came_out : ∀ {rate}, s.Rated step rate → ¬ ∃ fault, step.item = .error fault := by
    rintro rate ⟨out, item, -⟩ ⟨fault, failed⟩
    cases item.symm.trans failed
  cases treated with
  | first rated =>
    refine iff_of_false (came_out rated) ?_
    rintro ⟨_, ⟨⟩, -⟩
  | repeated was is item => exact iff_of_true ⟨_, item⟩ ⟨_, rfl, _, was, is⟩
  | invalidAxis failed rated =>
    refine iff_of_false (came_out rated) ?_
    rintro ⟨_, ⟨⟩, h, was, is⟩
    exact unmeasured_of failed (measured_of was is)
  | moved was is moved rated =>
    refine iff_of_false (came_out rated) ?_
    rintro ⟨_, ⟨⟩, h, was', is'⟩
    exact moved (Option.some.inj (by rw [← is, is', ← was, was']))

/-- In a lenient study a fault of a column that is there is passed over. -/
theorem tolerates_pairFault? (lenient : s.lenient = true) {column : String} {fault : Fault}
    (was : column ∈ before.columns) (is : column ∈ row.columns)
    (failed : pairFault? before row column = some fault) : s.tolerates fault = true := by
  rw [tolerates, lenient, Bool.true_and, isInvalidMeasurement_pairFault? failed]
  exact ⟨was, fun _ => is⟩

theorem tolerates_quantityFaults (lenient : s.lenient = true) {quantities : List String}
    (was : quantities ⊆ before.columns) (is : quantities ⊆ row.columns) :
    ∀ fault ∈ quantityFaults before row quantities, s.tolerates fault = true := by
  intro fault mem
  obtain ⟨quantity, declared, failed⟩ := List.mem_filterMap.mp mem
  exact tolerates_pairFault? lenient (was declared) (is declared) failed

/-- The step lemma: a row with all columns, after a row with all columns. -/
theorem step_lenient (lenient : s.lenient = true)
    (was : ∀ previous ∈ p.previous, s.axis :: s.quantities ⊆ previous.columns)
    (is : s.axis :: s.quantities ⊆ row.columns) :
    s.LenientStep row (s.step p (.ok row)) p.previous := by
  obtain ⟨axis_is, is⟩ := List.cons_subset.mp is
  cases previous : p.previous with
  | none =>
    have rates : s.rates p.previous row = s.noRates := by rw [previous, Study.rates]
    obtain ⟨rated, silent⟩ := rated_of_rates (fun _ => .undefined) rates
    exact .first rated silent
  | some before =>
    obtain ⟨axis_was, was⟩ := List.cons_subset.mp (was before previous)
    rcases axis_cases s before row with ⟨fault, failed⟩ | ⟨h, axis_before, axis_row⟩ |
      ⟨hBefore, h, axis_before, axis_row, moved⟩
    · have rates : s.rates p.previous row =
          ⟨[fault], .ok (s.quantities.map fun _ => .undefined)⟩ := by
        rw [previous, rates_of_fault failed, excuse,
          if_pos (tolerates_pairFault? lenient axis_was axis_is failed)]
        rfl
      obtain ⟨rated, warned⟩ := rated_of_rates (fun _ => .undefined) rates
      exact .invalidAxis failed rated warned
    · have rates := rates_of_repeated axis_before axis_row
      refine .repeated axis_before axis_row ?_ ?_
      · rw [step, previous, rates]
      · rw [step, previous, rates]
    · have tolerated := tolerates_quantityFaults lenient was is
      have rates : s.rates p.previous row = ⟨quantityFaults before row s.quantities,
          .ok (s.quantities.map (rateBetween before row hBefore h))⟩ := by
        rw [previous, rates_of_moved axis_before axis_row moved,
          quantityRates_of_tolerated tolerated]
      obtain ⟨rated, warned⟩ := rated_of_rates (rateBetween before row hBefore h) rates
      exact .moved axis_before axis_row moved rated warned

/-! ### What a strict study comes through -/

/-- The same study without tolerance. -/
def strictly (s : Study) : Study := { s with lenient := false }

/-- Rates that a strict study has are those of a lenient one, with nothing passed over. -/
theorem rates_of_strict {previous : Option Row} {values : List Rate}
    (ok : (s.strictly.rates previous row).result = .ok values) :
    s.rates previous row = ⟨[], .ok values⟩ := by
  cases previous with
  | none =>
    cases ok
    rfl
  | some before =>
    obtain ⟨follows, -⟩ := (rates_ok_iff rfl).mp ok
    obtain ⟨hBefore, was⟩ := Row.measures_iff.mp (follows.measured_before s.axis List.mem_cons_self)
    obtain ⟨h, is⟩ := Row.measures_iff.mp (follows.measured s.axis List.mem_cons_self)
    have moved : h ≠ hBefore := by
      rintro rfl
      have numbers := (Option.filter_eq_some_iff.mp was).1.trans
        (Option.filter_eq_some_iff.mp is).1.symm
      exact follows.moved numbers
    have clean : quantityFaults before row s.quantities = [] := by
      refine List.filterMap_eq_nil_iff.mpr fun quantity mem => pairFault?_eq_none_iff.mpr ?_
      exact ⟨follows.measured_before quantity (List.mem_cons_of_mem _ mem),
        follows.measured quantity (List.mem_cons_of_mem _ mem)⟩
    have strict_rates := rates_of_moved (s := s.strictly) was is moved
    rw [strict_rates] at ok
    rw [rates_of_moved was is moved, quantityRates_of_tolerated (by simp [clean]), clean,
      quantityRates_eq_ok ok]
    rfl

/-- A stream that a strict study comes through takes the same steps in a lenient one,
and nothing is passed over. -/
theorem stepsFrom_of_strict {stream : RowStream}
    (through : ∀ step ∈ s.strictly.stepsFrom p stream, step.item.isOk = true) :
    s.stepsFrom p stream = s.strictly.stepsFrom p stream ∧
      ∀ step ∈ s.stepsFrom p stream, step.passed = [] := by
  induction stream generalizing p with
  | nil => exact ⟨rfl, nofun⟩
  | cons item rest ih =>
    rw [stepsFrom_cons, List.forall_mem_cons] at through
    obtain ⟨first, later⟩ := through
    cases item with
    | error fault => cases first
    | ok row =>
      obtain ⟨values, ok⟩ : ∃ values, (s.strictly.rates p.previous row).result = .ok values := by
        rw [step] at first
        cases rates : (s.strictly.rates p.previous row).result with
        | ok values => exact ⟨values, rfl⟩
        | error fault =>
          rw [rates] at first
          cases first
      have lenient := rates_of_strict ok
      have strict := rates_of_strict (s := s.strictly) ok
      have same : s.step p (.ok row) = s.strictly.step p (.ok row) := by
        rw [step, step, lenient, strict]
        rfl
      obtain ⟨steps, silent⟩ := ih later
      rw [stepsFrom_cons, stepsFrom_cons, same, List.forall_mem_cons, steps]
      rw [steps] at silent
      refine ⟨rfl, ?_, silent⟩
      rw [step, strict]

/-! ### Whole streams -/

/-- A first row always comes out, and so something came out before every later one. -/
theorem getLast?_rowsOut_eq_none_iff (s : Study) {rows : List Row} {i : Nat} {row : Row}
    (here : rows[i]? = some row) : (s.rowsOut (rows.map .ok) i).getLast? = none ↔ i = 0 := by
  rw [List.getLast?_eq_none_iff]
  cases i with
  | zero => exact iff_of_true rfl rfl
  | succ i =>
    refine iff_of_false ?_ (Nat.succ_ne_zero i)
    cases rows with
    | nil => cases here
    | cons first rest =>
      rw [rowsOut, List.map_cons, rowsOutFrom_succ]
      exact List.cons_ne_nil first _

/-- The three levels, of which the last keeps the width, and a fourth with an invalid
value. -/
def fourLevels : List Row :=
  threeLevels ++ [Row.ofPairs [("h", .text "0.25"), ("q", .text "-1")]]

end RefinementTables.Study
