import RefinementTables.Proofs.Convergence.Stream
import RefinementTables.Proofs.Supply

/-!
The columns of an augmented table.

* `augmentedColumns_ok` — columns that are accepted are those of the source and
  behind them one for each quantity, none of which is a source column.
* `augment_sameBut` — a stream that comes through keeps what its rows hold under
  every other name, whether or not the study is strict.
* `supplies_augment` — an augmented stream has all columns of its table.
-/

namespace RefinementTables.Study

variable {s : Study} {p : Progress} {row : Row} {values : List Rate}

/-! ### Names -/

theorem addRateNames_ok {columns found quantities : List String}
    (ok : addRateNames columns quantities = .ok found) :
    found = columns ++ quantities.map rateName ∧
      ∀ quantity ∈ quantities, rateName quantity ∉ columns := by
  induction quantities generalizing columns with
  | nil =>
    cases ok
    exact ⟨(List.append_nil _).symm, nofun⟩
  | cons quantity rest ih =>
    rw [addRateNames] at ok
    split at ok
    · cases ok
    · next new =>
      obtain ⟨rfl, later⟩ := ih ok
      refine ⟨List.append_assoc .., List.forall_mem_cons.mpr ⟨new, ?_⟩⟩
      intro other mem there
      exact later other mem (List.mem_append_left _ there)

/-- Columns that are accepted. -/
theorem augmentedColumns_ok {source columns : List String}
    (ok : s.augmentedColumns source = .ok columns) :
    columns = source ++ s.rateNames ∧ ∀ name ∈ s.rateNames, name ∉ source := by
  obtain ⟨all, new⟩ := addRateNames_ok ok
  exact ⟨all, List.forall_mem_map.mpr new⟩

theorem findsAll_augmentedColumns (s : Study) (source : List String) :
    FindsAll (s.augmentedColumns source) := by
  unfold augmentedColumns
  induction s.quantities generalizing source with
  | nil => trivial
  | cons quantity rest ih =>
    rw [addRateNames]
    split
    · rfl
    · exact ih _

/-! ### One row -/

/-- A row with its rates holds what the row held under other names. -/
theorem sameBut_attach (s : Study) (row : Row) (values : List Rate) :
    Row.SameBut s.rateNames row (s.attach row values) := by
  intro name other
  rw [attach_eq_foldl]
  refine Row.sameBut_foldl_insert row _ name ?_
  intro mem
  obtain ⟨pair, paired, rfl⟩ := List.mem_map.mp mem
  exact other (List.of_mem_zip paired).1

theorem subset_columns_attach (sized : values.length = s.quantities.length) :
    row.columns ++ s.rateNames ⊆ (s.attach row values).columns := by
  have names : (s.rateNames.zip (values.map Rate.cell)).map Prod.fst = s.rateNames :=
    List.map_fst_zip (by simp [rateNames, sized])
  intro name mem
  rw [← Row.isSome_get?_iff, attach_eq_foldl, Row.isSome_get?_foldl_insert, names,
    Row.isSome_get?_iff]
  exact (List.mem_append.mp mem).symm

theorem excuse_ok {fault : Fault} {rest : Rates} (ok : (s.excuse fault rest).result = .ok values) :
    rest.result = .ok values := by
  unfold excuse at ok
  split at ok
  · exact ok
  · cases ok

theorem length_quantityRates {before : Row} {hBefore h : Binary64} {quantities : List String}
    (ok : (s.quantityRates before row hBefore h quantities).result = .ok values) :
    values.length = quantities.length := by
  induction quantities generalizing values with
  | nil =>
    cases ok
    rfl
  | cons quantity rest ih =>
    have one_more : ∀ {rate : Rate},
        ((s.quantityRates before row hBefore h rest).cons rate).result = .ok values →
        values.length = (quantity :: rest).length := by
      intro rate with_rate
      obtain ⟨later, rest_ok, rfl⟩ := cons_result_eq_ok_iff.mp with_rate
      rw [List.length_cons, ih rest_ok, List.length_cons]
    rw [quantityRates] at ok
    split at ok
    · exact one_more ok
    · exact one_more (excuse_ok ok)

/-- A row that comes out has one rate for each quantity. -/
theorem length_rates {before : Option Row} (ok : (s.rates before row).result = .ok values) :
    values.length = s.quantities.length := by
  have none_defined : ∀ {values : List Rate}, s.noRates.result = .ok values →
      values.length = s.quantities.length := by
    rintro values ⟨⟩
    exact List.length_map _
  cases before with
  | none => exact none_defined ok
  | some before =>
    rw [rates_some] at ok
    split at ok
    · exact none_defined (excuse_ok ok)
    · split at ok
      · cases ok
      · exact length_quantityRates ok

/-! ### Missing columns -/

theorem findsAll_measures {before : Row} {column : String} (was : column ∈ before.columns)
    (is : column ∈ row.columns) : FindsAll (measures column before row) :=
  (Row.findsAll_measure was).bind fun _ _ => (Row.findsAll_measure is).bind fun _ _ => trivial

theorem findsAll_excuse {fault : Fault} {rest : Rates} (other : fault.isIncompleteRecord = false)
    (rest_finds : FindsAll rest.result) : FindsAll (s.excuse fault rest).result := by
  unfold excuse
  split
  · exact rest_finds
  · exact other

theorem findsAll_quantityRates {before : Row} {hBefore h : Binary64} {quantities : List String}
    (was : quantities ⊆ before.columns) (is : quantities ⊆ row.columns) :
    FindsAll (s.quantityRates before row hBefore h quantities).result := by
  induction quantities with
  | nil => trivial
  | cons quantity rest ih =>
    obtain ⟨was_there, was⟩ := List.cons_subset.mp was
    obtain ⟨is_there, is⟩ := List.cons_subset.mp is
    have later := ih was is
    rw [quantityRates]
    cases pair : measures quantity before row with
    | ok found => exact later.map fun _ _ => trivial
    | error fault =>
      have other := (findsAll_measures was_there is_there).fault pair
      exact findsAll_excuse other (later.map fun _ _ => trivial)

/-- Rows that hold the axis and all quantities have rates, or there is a fault other
than a missing column. -/
theorem findsAll_rates {before : Option Row}
    (was : ∀ b ∈ before, s.axis :: s.quantities ⊆ b.columns)
    (is : s.axis :: s.quantities ⊆ row.columns) : FindsAll (s.rates before row).result := by
  obtain ⟨axis_is, is⟩ := List.cons_subset.mp is
  cases before with
  | none => trivial
  | some before =>
    obtain ⟨axis_was, was⟩ := List.cons_subset.mp (was before rfl)
    rw [rates_some]
    cases pair : measures s.axis before row with
    | error fault => exact findsAll_excuse ((findsAll_measures axis_was axis_is).fault pair) trivial
    | ok found =>
      dsimp only
      split
      · rfl
      · exact findsAll_quantityRates was is

/-! ### Whole streams -/

/-- The items that come out of a stream with the columns of a study have these
columns, and one for each quantity. -/
theorem supplies_stepsFrom {source : List String} {stream : RowStream}
    (declared : s.axis :: s.quantities ⊆ source) (supplied : Supplies source stream)
    (before : ∀ b ∈ p.previous, source ⊆ b.columns) :
    Supplies (source ++ s.rateNames) ((s.stepsFrom p stream).map Step.item) := by
  induction stream generalizing p with
  | nil => exact nofun
  | cons item rest ih =>
    obtain ⟨first, later⟩ := supplies_cons.mp supplied
    rw [stepsFrom_cons, List.map_cons, supplies_cons]
    rcases step_cases s p item with
      ⟨row, values, rfl, rates, out, after⟩ | ⟨fault, cause, out, after⟩
    · -- The row is what the next one is compared with, and has the columns of the source.
      have held : source ⊆ row.columns := first
      rw [out, after]
      refine ⟨fun name mem => ?_, ih later (by rintro _ ⟨⟩; exact held)⟩
      refine subset_columns_attach (length_rates rates) ?_
      rcases List.mem_append.mp mem with there | rate
      · exact List.mem_append_left _ (held there)
      · exact List.mem_append_right _ rate
    · rw [out, after]
      refine ⟨?_, ih later before⟩
      rcases cause with rfl | ⟨row, rfl, failed⟩
      · exact first
      · have held : source ⊆ row.columns := first
        have rates_find := findsAll_rates (fun b hb => List.Subset.trans declared (before b hb))
          (List.Subset.trans declared held)
        exact rates_find.fault failed

theorem supplies_augment {source : List String} {stream : RowStream}
    (declared : s.axis :: s.quantities ⊆ source) (supplied : Supplies source stream) :
    Supplies (source ++ s.rateNames) ((s.augment stream).map Step.item) :=
  supplies_stepsFrom declared supplied nofun

theorem stepsFrom_sameBut {stream : RowStream} {out : List Row}
    (through : (s.stepsFrom p stream).map Step.item = out.map .ok) :
    ∃ rows, stream = rows.map .ok ∧ List.Forall₂ (Row.SameBut s.rateNames) rows out := by
  induction stream generalizing p out with
  | nil =>
    cases List.map_eq_nil_iff.mp through.symm
    exact ⟨[], rfl, .nil⟩
  | cons item rest ih =>
    rw [stepsFrom_cons, List.map_cons] at through
    cases out with
    | nil => cases through
    | cons first out =>
      obtain ⟨item_ok, later⟩ := List.cons.inj through
      obtain ⟨rows, rfl, same⟩ := ih later
      rcases step_cases s p item with ⟨row, values, rfl, -, came_out, -⟩ | ⟨fault, -, failed, -⟩
      · rw [came_out] at item_ok
        cases item_ok
        exact ⟨row :: rows, rfl, .cons (sameBut_attach s row values) same⟩
      · rw [failed] at item_ok
        cases item_ok

/-- A stream that comes through has rows only, and what comes out holds what they
held, but under the names of the rates. -/
theorem augment_sameBut {stream : RowStream} {out : List Row}
    (through : (s.augment stream).map Step.item = out.map .ok) :
    ∃ rows, stream = rows.map .ok ∧ List.Forall₂ (Row.SameBut s.rateNames) rows out :=
  stepsFrom_sameBut through

end RefinementTables.Study
