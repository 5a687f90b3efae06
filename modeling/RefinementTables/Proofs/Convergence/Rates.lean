import Mathlib.Data.List.Nodup
import RefinementTables.Convergence.Augment
import RefinementTables.Proofs.Convergence.Components
import RefinementTables.Proofs.Row

/-!
The rates of one row.

* `rates_ok_iff` — a strict study has rates between two rows exactly if both are
  measured in full and the refinement has moved on (`Follows`); each is then the
  observed order (`IsRate`).
* `attach_eq` — where no rate column is there yet, the rates come behind the cells
  of the row.
-/

namespace RefinementTables

namespace Study

variable {s : Study} {before row : Row}

/-- A row that measures the axis and all quantities. -/
def Measured (s : Study) (row : Row) : Prop :=
  ∀ column ∈ s.axis :: s.quantities, row.Measures column

instance (s : Study) (row : Row) : Decidable (s.Measured row) :=
  inferInstanceAs (Decidable (∀ column ∈ s.axis :: s.quantities, row.Measures column))

theorem measures_eq_ok_iff {column : String} {a b : Binary64} :
    measures column before row = .ok (a, b) ↔
      before.measure column = .ok a ∧ row.measure column = .ok b := by
  unfold measures
  simp only [bind_eq_ok_iff]
  constructor
  · rintro ⟨a, first, b, second, h⟩
    cases h
    exact ⟨first, second⟩
  · rintro ⟨first, second⟩
    exact ⟨a, first, b, second, rfl⟩

/-- Where a pair of measurements fails, one of the two rows does not measure. -/
theorem not_measures_of_error {column : String} {fault : Fault}
    (failed : measures column before row = .error fault) :
    ¬ (before.Measures column ∧ row.Measures column) := by
  rintro ⟨⟨a, first⟩, ⟨b, second⟩⟩
  rw [measures_eq_ok_iff.mpr ⟨Row.measure_eq_ok_iff.mpr first, Row.measure_eq_ok_iff.mpr second⟩]
    at failed
  cases failed

/-! ### Strict studies -/

/-- The rate of a quantity, seen from the numbers in both rows. -/
def IsRate (s : Study) (before row : Row) (quantity : String) (rate : Rate) : Prop :=
  ∃ qBefore q hBefore h, before.number? quantity = some qBefore ∧ row.number? quantity = some q ∧
    before.number? s.axis = some hBefore ∧ row.number? s.axis = some h ∧
    rate = .value (observedOrder qBefore q hBefore h)

/-- A row that can follow another in a strict study: both are measured in full,
and the refinement has moved on. -/
structure Follows (s : Study) (before row : Row) : Prop where
  measured_before : s.Measured before
  measured : s.Measured row
  moved : before.number? s.axis ≠ row.number? s.axis

/-- A strict study passes over no fault. -/
theorem excuse_of_strict (strict : s.lenient = false) (fault : Fault) (rest : Rates) :
    s.excuse fault rest = ⟨[], .error fault⟩ := by
  simp [excuse, tolerates, strict]

theorem cons_result_eq_ok_iff {rate : Rate} {rest : Rates} {values : List Rate} :
    (rest.cons rate).result = .ok values ↔
      ∃ later, rest.result = .ok later ∧ values = rate :: later := by
  unfold Rates.cons Passing.map
  cases rest.result <;> simp [Except.map, eq_comm]

/-- Quantities have rates exactly if both rows measure all of them. -/
theorem quantityRates_ok_iff (strict : s.lenient = false) {hBefore h : Binary64}
    (first : before.number? s.axis = some hBefore) (second : row.number? s.axis = some h)
    {quantities : List String} {values : List Rate} :
    (s.quantityRates before row hBefore h quantities).result = .ok values ↔
      (∀ quantity ∈ quantities, before.Measures quantity ∧ row.Measures quantity) ∧
        List.Forall₂ (s.IsRate before row) quantities values := by
  induction quantities generalizing values with
  | nil => simp [quantityRates, eq_comm]
  | cons quantity rest ih =>
    rw [quantityRates, List.forall_mem_cons, List.forall₂_cons_left_iff]
    cases pair : measures quantity before row with
    | error fault =>
      simp only [excuse_of_strict strict, reduceCtorEq, false_iff]
      rintro ⟨⟨measured, -⟩, -⟩
      exact not_measures_of_error pair measured
    | ok found =>
      obtain ⟨qBefore, q⟩ := found
      obtain ⟨was, is⟩ := measures_eq_ok_iff.mp pair
      rw [Row.measure_eq_ok_iff] at was is
      simp only [cons_result_eq_ok_iff, ih]
      constructor
      · rintro ⟨later, ⟨measured, all⟩, rfl⟩
        exact ⟨⟨⟨⟨qBefore, was⟩, q, is⟩, measured⟩, _, later,
          ⟨qBefore, q, hBefore, h, was.1, is.1, first, second, rfl⟩, all, rfl⟩
      · rintro ⟨⟨-, measured⟩, _, later, ⟨a, b, c, d, ha, hb, hc, hd, rfl⟩, all, rfl⟩
        rw [was.1] at ha
        rw [is.1] at hb
        rw [first] at hc
        rw [second] at hd
        cases ha
        cases hb
        cases hc
        cases hd
        exact ⟨later, ⟨measured, all⟩, rfl⟩

/-- Two rows have rates exactly if the second can follow the first, and the rates
are the observed orders. -/
theorem rates_ok_iff (strict : s.lenient = false) {values : List Rate} :
    (s.rates (some before) row).result = .ok values ↔
      s.Follows before row ∧ List.Forall₂ (s.IsRate before row) s.quantities values := by
  rw [rates_some]
  cases axis : measures s.axis before row with
  | error fault =>
    simp only [excuse_of_strict strict, reduceCtorEq, false_iff]
    rintro ⟨follows, -⟩
    exact not_measures_of_error axis ⟨follows.measured_before _ List.mem_cons_self,
      follows.measured _ List.mem_cons_self⟩
  | ok pair =>
    obtain ⟨hBefore, h⟩ := pair
    obtain ⟨first, second⟩ := measures_eq_ok_iff.mp axis
    rw [Row.measure_eq_ok_iff] at first second
    by_cases same : h = hBefore
    · simp only [if_pos same, reduceCtorEq, false_iff]
      rintro ⟨follows, -⟩
      exact follows.moved (by rw [first.1, second.1, same])
    · simp only [if_neg same, quantityRates_ok_iff strict first.1 second.1]
      refine and_congr_left fun _ => ?_
      constructor
      · intro measured
        refine ⟨?_, ?_, ?_⟩
        · exact List.forall_mem_cons.mpr ⟨⟨hBefore, first⟩, fun q hq => (measured q hq).1⟩
        · exact List.forall_mem_cons.mpr ⟨⟨h, second⟩, fun q hq => (measured q hq).2⟩
        · rw [first.1, second.1]
          exact fun equal => same (Option.some.inj equal).symm
      · intro follows quantity hq
        exact ⟨follows.measured_before _ (List.mem_cons_of_mem _ hq),
          follows.measured _ (List.mem_cons_of_mem _ hq)⟩

/-- Rows of which the second can follow the first have rates. -/
theorem Follows.rates (follows : s.Follows before row) (strict : s.lenient = false) :
    ∃ values, (s.rates (some before) row).result = .ok values := by
  have rated : ∀ quantity ∈ s.quantities, ∃ rate, s.IsRate before row quantity rate := by
    intro quantity hq
    obtain ⟨hBefore, first, -⟩ := follows.measured_before s.axis List.mem_cons_self
    obtain ⟨h, second, -⟩ := follows.measured s.axis List.mem_cons_self
    obtain ⟨qBefore, was, -⟩ := follows.measured_before quantity (List.mem_cons_of_mem _ hq)
    obtain ⟨q, is, -⟩ := follows.measured quantity (List.mem_cons_of_mem _ hq)
    exact ⟨_, qBefore, q, hBefore, h, was, is, first, second, rfl⟩
  obtain ⟨values, all⟩ := exists_forall₂ rated
  exact ⟨values, (rates_ok_iff strict).mpr ⟨follows, all⟩⟩

/-! ### Rate columns -/

theorem rateName_injective : Function.Injective rateName := by
  intro a b h
  have same : toString a = toString b := by simpa [rateName] using h
  exact same

/-- Attaching rates is inserting their cells one after the other. -/
theorem attach_eq_foldl (s : Study) (row : Row) (values : List Rate) :
    s.attach row values = (s.rateNames.zip (values.map Rate.cell)).foldl
      (fun r (column, cell) => r.insert column cell) row := by
  rw [attach, List.zip_map_right, List.foldl_map]
  rfl

/-- Where the rate columns are new, the rates come behind the cells of the row. -/
theorem attach_eq {values : List Rate} (distinct : s.quantities.Nodup)
    (new : ∀ quantity ∈ s.quantities, rateName quantity ∉ row.columns)
    (sized : values.length = s.quantities.length) :
    s.attach row values =
      { row with cells := row.cells ++ s.rateNames.zip (values.map Rate.cell) } := by
  have sized' : s.rateNames.length = (values.map Rate.cell).length := by simp [rateNames, sized]
  have names : (s.rateNames.zip (values.map Rate.cell)).map Prod.fst = s.rateNames :=
    List.map_fst_zip (Nat.le_of_eq sized')
  have distinct_names : ((s.rateNames.zip (values.map Rate.cell)).map Prod.fst).Nodup := by
    rw [names]
    exact List.Nodup.map rateName_injective distinct
  rw [attach_eq_foldl, Row.foldl_insert_eq distinct_names]
  rw [names]
  intro name hn
  obtain ⟨quantity, hq, rfl⟩ := List.mem_map.mp hn
  exact new quantity hq

end Study

end RefinementTables
