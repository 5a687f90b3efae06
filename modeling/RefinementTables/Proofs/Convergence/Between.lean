import Mathlib.Data.List.TakeWhile
import RefinementTables.Proofs.Convergence.Rates

/-!
The rates between two rows, lenient or not.

What a study makes of two rows can be read off their columns: `pairFault?` is what
stands in the way of a pair of measurements, and `rateBetween` is the rate of a
single quantity.

* `rates_of_fault`, `rates_of_repeated`, `rates_of_moved` — what the axis leads to.
* `quantityRates_stopsAtFirst`, `passed_quantityRates` — the quantities behind it: the
  first fault that is not tolerated ends the work, and those before it are passed
  over in order.
* `rates_componentwise` — every rate is that of its own quantity, whatever the others
  are and hold.
-/

namespace RefinementTables

theorem Row.measurement?_congr {r r' : Row} {column : String}
    (same : r'.get? column = r.get? column) : r'.measurement? column = r.measurement? column := by
  rw [measurement?, measurement?, number?, number?, same]

namespace Study

variable {s : Study} {before row : Row} {column quantity : String} {hBefore h : Binary64}
  {fault : Fault}

/-! ### Pairs of measurements -/

/-- What is the matter with a column in two rows. The earlier row is looked at
first. -/
def pairFault? (before row : Row) (column : String) : Option Fault :=
  (before.fault? column).or (row.fault? column)

theorem measures_ok_iff {a b : Binary64} :
    measures column before row = .ok (a, b) ↔
      before.measurement? column = some a ∧ row.measurement? column = some b := by
  rw [measures_eq_ok_iff, Row.measure_ok_iff, Row.measure_ok_iff]

theorem pairFault?_eq_none_iff :
    pairFault? before row column = none ↔ before.Measures column ∧ row.Measures column := by
  rw [pairFault?, Option.or_eq_none_iff, Row.fault?_eq_none_iff, Row.fault?_eq_none_iff]

theorem measured_of (was : before.measurement? column = some hBefore)
    (is : row.measurement? column = some h) : before.Measures column ∧ row.Measures column :=
  ⟨Row.measures_iff.mpr ⟨hBefore, was⟩, Row.measures_iff.mpr ⟨h, is⟩⟩

theorem unmeasured_of (failed : pairFault? before row column = some fault) :
    ¬ (before.Measures column ∧ row.Measures column) := by
  rw [← pairFault?_eq_none_iff, failed]
  exact Option.some_ne_none fault

theorem measures_error_iff :
    measures column before row = .error fault ↔ pairFault? before row column = some fault := by
  cases first : before.measure column with
  | error f =>
    have stopped : measures column before row = .error f := by
      rw [measures, first]
      rfl
    rw [stopped, pairFault?, Row.measure_error_iff.mp first]
    simp
  | ok a =>
    have clean : before.fault? column = none :=
      Row.fault?_eq_none_iff.mpr ⟨a, Row.measure_eq_ok_iff.mp first⟩
    have second :
        measures column before row = .error fault ↔ row.measure column = .error fault := by
      rw [measures, first]
      cases row.measure column <;> simp [bind, Except.bind, pure, Except.pure]
    rw [second, pairFault?, clean, Option.none_or, Row.measure_error_iff]

/-- Only a missing column is no invalid measurement, and only if nothing invalid was
found before it. -/
theorem isInvalidMeasurement_pairFault? (failed : pairFault? before row column = some fault) :
    fault.isInvalidMeasurement = true ↔
      column ∈ before.columns ∧ (before.Measures column → column ∈ row.columns) := by
  rcases Option.or_eq_some_iff.mp failed with first | ⟨clean, second⟩
  · have unmeasured : ¬ before.Measures column := by
      rw [← Row.fault?_eq_none_iff, first]
      exact Option.some_ne_none fault
    rw [Row.isInvalidMeasurement_fault? first]
    exact (and_iff_left fun measured => absurd measured unmeasured).symm
  · have measured : before.Measures column := Row.fault?_eq_none_iff.mp clean
    rw [Row.isInvalidMeasurement_fault? second]
    exact ⟨fun there => ⟨measured.mem_columns, fun _ => there⟩, fun ⟨_, there⟩ => there measured⟩

/-! ### The axis -/

/-- A fault on the axis decides about all quantities. -/
theorem rates_of_fault (failed : pairFault? before row s.axis = some fault) :
    s.rates (some before) row = s.excuse fault s.noRates := by
  rw [rates_some, measures_error_iff.mpr failed]

/-- An axis value that is the one before it ends the work. -/
theorem rates_of_repeated (was : before.measurement? s.axis = some h)
    (is : row.measurement? s.axis = some h) :
    s.rates (some before) row = ⟨[], .error (.degenerateRefinement s.axis h row.location)⟩ := by
  rw [rates_some, measures_ok_iff.mpr ⟨was, is⟩]
  exact if_pos rfl

/-- Between two axis values every quantity is looked at. -/
theorem rates_of_moved (was : before.measurement? s.axis = some hBefore)
    (is : row.measurement? s.axis = some h) (moved : h ≠ hBefore) :
    s.rates (some before) row = s.quantityRates before row hBefore h s.quantities := by
  rw [rates_some, measures_ok_iff.mpr ⟨was, is⟩]
  exact if_neg moved

/-- On the axis of two rows something is the matter, or its value is repeated, or it
has moved on. -/
theorem axis_cases (s : Study) (before row : Row) :
    (∃ fault, pairFault? before row s.axis = some fault) ∨
      (∃ h, before.measurement? s.axis = some h ∧ row.measurement? s.axis = some h) ∨
      ∃ hBefore h, before.measurement? s.axis = some hBefore ∧
        row.measurement? s.axis = some h ∧ h ≠ hBefore := by
  cases failed : pairFault? before row s.axis with
  | some fault => exact .inl ⟨fault, rfl⟩
  | none =>
    obtain ⟨first, second⟩ := pairFault?_eq_none_iff.mp failed
    obtain ⟨hBefore, was⟩ := Row.measures_iff.mp first
    obtain ⟨h, is⟩ := Row.measures_iff.mp second
    by_cases same : h = hBefore
    · subst same
      exact .inr (.inl ⟨h, was, is⟩)
    · exact .inr (.inr ⟨hBefore, h, was, is, same⟩)

/-! ### The quantities -/

/-- The rate of a quantity between two rows: the observed order, if both rows measure
it. -/
def rateBetween (before row : Row) (hBefore h : Binary64) (quantity : String) : Rate :=
  match before.measurement? quantity, row.measurement? quantity with
  | some qBefore, some q => .value (observedOrder qBefore q hBefore h)
  | _, _ => .undefined

theorem rateBetween_of_measured {qBefore q : Binary64}
    (was : before.measurement? quantity = some qBefore)
    (is : row.measurement? quantity = some q) :
    rateBetween before row hBefore h quantity = .value (observedOrder qBefore q hBefore h) := by
  rw [rateBetween, was, is]

theorem rateBetween_of_unmeasured
    (unmeasured : ¬ (before.Measures quantity ∧ row.Measures quantity)) :
    rateBetween before row hBefore h quantity = .undefined := by
  unfold rateBetween
  split
  · next _ _ was is =>
    exact absurd (measured_of was is) unmeasured
  · rfl

/-- A quantity puts its rate in front of the others, unless the work ends with its
fault. -/
theorem quantityRates_cons (s : Study) (before row : Row) (hBefore h : Binary64)
    (quantity : String) (rest : List String) :
    s.quantityRates before row hBefore h (quantity :: rest) =
      let rates := (s.quantityRates before row hBefore h rest).cons
        (rateBetween before row hBefore h quantity)
      match pairFault? before row quantity with
      | none => rates
      | some fault => s.excuse fault rates := by
  rw [quantityRates]
  cases pair : measures quantity before row with
  | ok found =>
    obtain ⟨was, is⟩ := measures_ok_iff.mp pair
    have clean : pairFault? before row quantity = none :=
      pairFault?_eq_none_iff.mpr (measured_of was is)
    rw [clean, rateBetween_of_measured was is]
  | error fault =>
    have failed := measures_error_iff.mp pair
    rw [failed, rateBetween_of_unmeasured (unmeasured_of failed)]

/-- The faults on the way through some quantities. -/
def quantityFaults (before row : Row) (quantities : List String) : List Fault :=
  quantities.filterMap (pairFault? before row)

theorem quantityFaults_cons (before row : Row) (quantity : String) (rest : List String) :
    quantityFaults before row (quantity :: rest) =
      (pairFault? before row quantity).toList ++ quantityFaults before row rest := by
  rw [quantityFaults, List.filterMap_cons]
  cases pairFault? before row quantity <;> rfl

/-- The faults that end the work: those that are not tolerated. -/
def finalFaults (s : Study) (faults : List Fault) : List Fault :=
  faults.filter fun f => !s.tolerates f

/-- The first fault that is not tolerated ends the work. Without such a fault there is
a rate for each quantity. -/
theorem quantityRates_stopsAtFirst (s : Study) (before row : Row) (hBefore h : Binary64)
    (quantities : List String) :
    StopsAtFirst (s.finalFaults (quantityFaults before row quantities))
      (· = quantities.map (rateBetween before row hBefore h))
      (s.quantityRates before row hBefore h quantities).result := by
  induction quantities with
  | nil => exact ⟨[], rfl, rfl⟩
  | cons quantity rest ih =>
    have longer := ih.map (Q := (· = (quantity :: rest).map (rateBetween before row hBefore h)))
      fun _ same => congrArg (rateBetween before row hBefore h quantity :: ·) same
    rw [quantityRates_cons, quantityFaults_cons]
    cases pairFault? before row quantity with
    | none => exact longer
    | some fault =>
      dsimp only [excuse]
      rw [finalFaults, Option.toList_some, List.singleton_append, List.filter_cons]
      cases s.tolerates fault with
      | true => exact longer
      | false => exact rfl

/-- The faults that are passed over are those before the first that is not tolerated. -/
theorem passed_quantityRates (s : Study) (before row : Row) (hBefore h : Binary64)
    (quantities : List String) :
    (s.quantityRates before row hBefore h quantities).passed =
      (quantityFaults before row quantities).takeWhile s.tolerates := by
  induction quantities with
  | nil => rfl
  | cons quantity rest ih =>
    rw [quantityRates_cons, quantityFaults_cons]
    cases pairFault? before row quantity with
    | none => exact ih
    | some fault =>
      dsimp only [excuse]
      rw [Option.toList_some, List.singleton_append, List.takeWhile_cons]
      cases s.tolerates fault with
      | true => exact congrArg (fault :: ·) ih
      | false => rfl

/-- Where all faults are tolerated, they are passed over and every quantity has its
rate. -/
theorem quantityRates_of_tolerated {quantities : List String}
    (tolerated : ∀ f ∈ quantityFaults before row quantities, s.tolerates f = true) :
    s.quantityRates before row hBefore h quantities =
      ⟨quantityFaults before row quantities,
        .ok (quantities.map (rateBetween before row hBefore h))⟩ := by
  have passed := passed_quantityRates s before row hBefore h quantities
  have stops := quantityRates_stopsAtFirst s before row hBefore h quantities
  have none_final : s.finalFaults (quantityFaults before row quantities) = [] :=
    List.filter_eq_nil_iff.mpr fun f mem => by simp [tolerated f mem]
  rw [List.takeWhile_eq_self_iff.mpr tolerated] at passed
  rw [none_final] at stops
  obtain ⟨values, ok, rfl⟩ := stops
  rw [← passed, ← ok]

/-- Rates that there are, are those of the single quantities. -/
theorem quantityRates_eq_ok {quantities : List String} {values : List Rate}
    (ok : (s.quantityRates before row hBefore h quantities).result = .ok values) :
    values = quantities.map (rateBetween before row hBefore h) :=
  ((quantityRates_stopsAtFirst s before row hBefore h quantities).of_ok ok).2

/-- A strict study stops at the first fault that there is. -/
theorem quantityRates_error_iff (strict : s.lenient = false) {quantities : List String} :
    (s.quantityRates before row hBefore h quantities).result = .error fault ↔
      quantities.findSome? (pairFault? before row) = some fault := by
  have all : s.finalFaults (quantityFaults before row quantities) =
      quantityFaults before row quantities :=
    List.filter_eq_self.mpr fun f _ => by simp [tolerates, strict]
  rw [(quantityRates_stopsAtFirst s before row hBefore h quantities).error_iff, all,
    quantityFaults, List.head?_filterMap]

/-- Between rows with different axis values, the rates that come out are one for each
quantity: its observed order if both rows measure it, and undefined otherwise. Another
study with the same axis, whatever its other quantities, between rows that hold the
same under the axis and under the quantity, gives the quantity the same rate. A strict
study has no rates exactly if a quantity is not measured in both rows, and then the
fault is that of the first such quantity, in the earlier row if there is one. -/
theorem rates_componentwise (was : before.measurement? s.axis = some hBefore)
    (is : row.measurement? s.axis = some h) (moved : h ≠ hBefore) :
    (∀ values : List Rate, (s.rates (some before) row).result = .ok values →
      values.length = s.quantities.length ∧
      ∀ (i : Nat) (quantity : String), s.quantities[i]? = some quantity →
        (∀ qBefore q, before.measurement? quantity = some qBefore →
          row.measurement? quantity = some q →
          values[i]? = some (Rate.value (observedOrder qBefore q hBefore h))) ∧
        (¬ (before.Measures quantity ∧ row.Measures quantity) → values[i]? = some Rate.undefined) ∧
        ∀ (t : Study) (before' row' : Row) (values' : List Rate) (j : Nat), t.axis = s.axis →
          (∀ column ∈ [s.axis, quantity],
            before'.get? column = before.get? column ∧ row'.get? column = row.get? column) →
          t.quantities[j]? = some quantity →
          (t.rates (some before') row').result = .ok values' → values'[j]? = values[i]?) ∧
    (s.lenient = false →
      ((∃ fault, (s.rates (some before) row).result = .error fault) ↔
        ∃ quantity ∈ s.quantities, ¬ (before.Measures quantity ∧ row.Measures quantity)) ∧
      ∀ fault, (s.rates (some before) row).result = .error fault ↔
        s.quantities.findSome? (pairFault? before row) = some fault) := by
  rw [rates_of_moved was is moved]
  constructor
  · intro values ok
    obtain rfl := quantityRates_eq_ok ok
    refine ⟨List.length_map _, fun i quantity declared => ?_⟩
    rw [List.getElem?_map, declared, Option.map_some]
    refine ⟨fun qBefore q first second => ?_, fun unmeasured => ?_, ?_⟩
    · rw [rateBetween_of_measured first second]
    · rw [rateBetween_of_unmeasured unmeasured]
    · intro t before' row' values' j same_axis same declared' ok'
      obtain ⟨axis_before, axis_row⟩ := same s.axis (by simp)
      have was' : before'.measurement? t.axis = some hBefore := by
        rw [same_axis, Row.measurement?_congr axis_before, was]
      have is' : row'.measurement? t.axis = some h := by
        rw [same_axis, Row.measurement?_congr axis_row, is]
      obtain ⟨quantity_before, quantity_row⟩ := same quantity (by simp)
      rw [rates_of_moved was' is' moved] at ok'
      obtain rfl := quantityRates_eq_ok ok'
      rw [List.getElem?_map, declared', Option.map_some, rateBetween, rateBetween,
        Row.measurement?_congr quantity_before, Row.measurement?_congr quantity_row]
  · intro strict
    refine ⟨?_, fun fault => quantityRates_error_iff strict⟩
    simp only [quantityRates_error_iff strict, ← pairFault?_eq_none_iff]
    rw [← Option.isSome_iff_exists, List.findSome?_isSome_iff]
    simp only [Option.isSome_iff_ne_none]

/-- Two levels of three quantities, of which only the first is measured in both. -/
def mixedLevels : Row × Row :=
  (Row.ofPairs [("h", .text "1"), ("q", .text "4"), ("r", .text "-1"), ("u", .text "2")],
    Row.ofPairs [("h", .text "0.5"), ("q", .text "1"), ("r", .text "3"), ("u", .text "inf")])

/-- A lenient study gives the first quantity its order and leaves the rates of the
others undefined; a strict one ends with the second. -/
theorem rates_mixedLevels :
    let s : Study := ⟨"h", ["q", "r", "u"], true⟩
    let number : Nat → Int → Binary64 := fun c e => .ofDecimal false ⟨c, e⟩
    mixedLevels.1.measurement? s.axis = some (number 1 0) ∧
      mixedLevels.2.measurement? s.axis = some (number 5 (-1)) ∧
      number 5 (-1) ≠ number 1 0 ∧
      (∃ values, (s.rates (some mixedLevels.1) mixedLevels.2).result = .ok values ∧
        values.length = 3 ∧
        values[0]? = some (.value
          (observedOrder (number 4 0) (number 1 0) (number 1 0) (number 5 (-1)))) ∧
        values[1]? = some .undefined ∧ values[2]? = some .undefined) ∧
      ({ s with lenient := false }.rates (some mixedLevels.1) mixedLevels.2).result =
        .error (.invalidMeasurement "r" "-1" ⟨"<memory>", 0⟩) := by
  intro s number
  have was : mixedLevels.1.measurement? s.axis = some (number 1 0) := by decide +kernel
  have is : mixedLevels.2.measurement? s.axis = some (number 5 (-1)) := by decide +kernel
  have moved : number 5 (-1) ≠ number 1 0 := by decide +kernel
  have tolerated : ∀ f ∈ quantityFaults mixedLevels.1 mixedLevels.2 s.quantities,
      s.tolerates f = true := by decide +kernel
  refine ⟨was, is, moved, ?_, ?_⟩
  · obtain ⟨values, ok⟩ : ∃ values, (s.rates (some mixedLevels.1) mixedLevels.2).result =
        .ok values := by
      rw [rates_of_moved was is moved, quantityRates_of_tolerated tolerated]
      exact ⟨_, rfl⟩
    obtain ⟨sized, each⟩ := (rates_componentwise was is moved).1 values ok
    refine ⟨values, ok, sized, ?_, ?_, ?_⟩
    · exact (each 0 "q" rfl).1 _ _ (by decide +kernel) (by decide +kernel)
    · exact (each 1 "r" rfl).2.1 (by decide +kernel)
    · exact (each 2 "u" rfl).2.1 (by decide +kernel)
  · obtain ⟨-, first⟩ := (rates_componentwise (s := { s with lenient := false }) was is moved).2 rfl
    exact (first _).mpr (by decide +kernel)

end Study

end RefinementTables
