import RefinementTables.Proofs.Convergence.Between

/-!
What a lenient study tolerates.

Only invalid measurements are passed over. But of each pair of cells only the first
fault counts, and behind an axis that is passed over no quantity is looked at, so
that a missing column can go unnoticed.

* `passes_iff` — when a column of two rows does not end the work.
* `missing_column_fails_iff` — a missing column is a fault exactly if it is looked at
  (`Overlooks`); `missing_column_overlooked` is a case in which it is not.
-/

namespace RefinementTables.Study

variable {s : Study} {before row : Row} {column : String} {hBefore h : Binary64}

/-- What is the matter with a column in two rows, if anything is, is passed over. -/
def Passes (s : Study) (before row : Row) (column : String) : Prop :=
  ∀ fault, pairFault? before row column = some fault → s.tolerates fault = true

/-- A column passes if both rows measure it, and in a lenient study if it is there as
far as the rows are looked at: the later row is not when the earlier one does not
measure. -/
theorem passes_iff :
    s.Passes before row column ↔
      before.Measures column ∧ row.Measures column ∨
        s.lenient = true ∧ column ∈ before.columns ∧
          (before.Measures column → column ∈ row.columns) := by
  unfold Passes
  cases failed : pairFault? before row column with
  | none =>
    have measured := pairFault?_eq_none_iff.mp failed
    exact iff_of_true nofun (.inl measured)
  | some fault =>
    have unmeasured := unmeasured_of failed
    rw [or_iff_right unmeasured, ← isInvalidMeasurement_pairFault? failed, ← Bool.and_eq_true]
    exact ⟨fun passes => passes fault rfl, by rintro tolerated _ ⟨⟩; exact tolerated⟩

/-- Behind different axis values there are rates exactly if all quantities pass. -/
theorem quantityRates_ok_iff_passes {quantities : List String} :
    (∃ values, (s.quantityRates before row hBefore h quantities).result = .ok values) ↔
      ∀ quantity ∈ quantities, s.Passes before row quantity := by
  constructor
  · rintro ⟨values, ok⟩ quantity mem fault failed
    obtain ⟨none_final, -⟩ :=
      (quantityRates_stopsAtFirst s before row hBefore h quantities).of_ok ok
    have there : fault ∈ quantityFaults before row quantities :=
      List.mem_filterMap.mpr ⟨quantity, mem, failed⟩
    simpa using List.filter_eq_nil_iff.mp none_final fault there
  · intro passes
    rw [quantityRates_of_tolerated]
    · exact ⟨_, rfl⟩
    · intro fault mem
      obtain ⟨quantity, declared, failed⟩ := List.mem_filterMap.mp mem
      exact passes quantity declared fault failed

/-- Both rows measure the axis, and its value has changed. -/
def Moved (s : Study) (before row : Row) : Prop :=
  ∃ hBefore h, before.measurement? s.axis = some hBefore ∧ row.measurement? s.axis = some h ∧
    h ≠ hBefore

theorem Moved.measured (moved : s.Moved before row) :
    before.Measures s.axis ∧ row.Measures s.axis := by
  obtain ⟨hBefore, h, was, is, -⟩ := moved
  exact measured_of was is

/-- Two rows have rates exactly if something is the matter with the axis and passes, or
the axis has moved on and all quantities pass. -/
theorem rates_ok_iff_passes :
    (∃ values, (s.rates (some before) row).result = .ok values) ↔
      ¬ (before.Measures s.axis ∧ row.Measures s.axis) ∧ s.Passes before row s.axis ∨
        s.Moved before row ∧ ∀ quantity ∈ s.quantities, s.Passes before row quantity := by
  rcases axis_cases s before row with ⟨fault, failed⟩ | ⟨h, was, is⟩ | ⟨hBefore, h, was, is, moved⟩
  · have unmeasured := unmeasured_of failed
    have unmoved : ¬ s.Moved before row := fun moved => unmeasured moved.measured
    have passes : s.Passes before row s.axis ↔ s.tolerates fault = true := by
      simp [Passes, failed]
    rw [rates_of_fault failed, and_iff_right unmeasured, or_iff_left fun both => unmoved both.1,
      passes, excuse]
    cases s.tolerates fault <;> simp [noRates]
  · have measured := measured_of was is
    rw [rates_of_repeated was is]
    refine iff_of_false (by simp) ?_
    rintro (⟨unmeasured, -⟩ | ⟨⟨hBefore, h', was', is', moved⟩, -⟩)
    · exact unmeasured measured
    · exact moved (Option.some.inj (by rw [← is', is, ← was', was]))
  · have has_moved : s.Moved before row := ⟨hBefore, h, was, is, moved⟩
    rw [rates_of_moved was is moved, quantityRates_ok_iff_passes,
      or_iff_right fun both => both.1 has_moved.measured, and_iff_right has_moved]

/-- A missing column is not looked at. The study is lenient, and either an invalid axis
value is met before anything is missing, or the axis has moved on and every quantity is
there, but perhaps in the later row where the earlier one holds an invalid value. -/
def Overlooks (s : Study) (before row : Row) : Prop :=
  s.lenient = true ∧
    (¬ (before.Measures s.axis ∧ row.Measures s.axis) ∧ s.axis ∈ before.columns ∧
        (before.Measures s.axis → s.axis ∈ row.columns) ∨
      s.Moved before row ∧ ∀ quantity ∈ s.quantities, quantity ∈ before.columns ∧
        (before.Measures quantity → quantity ∈ row.columns))

theorem unmeasured_of_absent (absent : column ∉ before.columns ∨ column ∉ row.columns) :
    ¬ (before.Measures column ∧ row.Measures column) := by
  rintro ⟨first, second⟩
  exact absent.elim (· first.mem_columns) (· second.mem_columns)

/-- Two rows of which one lacks the axis or a quantity lead to a fault exactly if the
lack is not overlooked, so in a strict study always. -/
theorem missing_column_fails_iff
    (absent : ∃ column ∈ s.axis :: s.quantities,
      column ∉ before.columns ∨ column ∉ row.columns) :
    (∃ fault, (s.rates (some before) row).result = .error fault) ↔ ¬ s.Overlooks before row := by
  have no_rates : (∃ fault, (s.rates (some before) row).result = .error fault) ↔
      ¬ ∃ values, (s.rates (some before) row).result = .ok values := by
    cases (s.rates (some before) row).result <;> simp
  rw [no_rates, rates_ok_iff_passes]
  refine not_congr ?_
  constructor
  · rintro (⟨unmeasured, passes⟩ | ⟨moved, passes⟩)
    · obtain ⟨lenient, there⟩ := (passes_iff.mp passes).resolve_left unmeasured
      exact ⟨lenient, .inl ⟨unmeasured, there⟩⟩
    · -- Of the columns that are missing one is a quantity, and it passes.
      obtain ⟨column, declared, missing⟩ := absent
      have unmeasured := unmeasured_of_absent missing
      have mem : column ∈ s.quantities := by
        rcases List.mem_cons.mp declared with rfl | mem
        · exact absurd moved.measured unmeasured
        · exact mem
      have lenient : s.lenient = true :=
        ((passes_iff.mp (passes column mem)).resolve_left unmeasured).1
      refine ⟨lenient, .inr ⟨moved, fun quantity mem => ?_⟩⟩
      rcases passes_iff.mp (passes quantity mem) with ⟨first, second⟩ | ⟨-, there⟩
      · exact ⟨first.mem_columns, fun _ => second.mem_columns⟩
      · exact there
  · rintro ⟨lenient, ⟨unmeasured, there⟩ | ⟨moved, there⟩⟩
    · exact .inl ⟨unmeasured, passes_iff.mpr (.inr ⟨lenient, there⟩)⟩
    · exact .inr ⟨moved, fun quantity mem => passes_iff.mpr (.inr ⟨lenient, there quantity mem⟩)⟩

/-- Two levels of which the second has no cell for the quantity, after a valid cell. -/
def lackingLevels : Row × Row :=
  (Row.ofPairs [("h", .text "1"), ("q", .text "4")], Row.ofPairs [("h", .text "0.5")])

/-- Here the lack is seen, also by a lenient study. -/
theorem missing_column_seen :
    let s : Study := ⟨"h", ["q"], true⟩
    (∃ column ∈ s.axis :: s.quantities,
      column ∉ lackingLevels.1.columns ∨ column ∉ lackingLevels.2.columns) ∧
      ∃ fault, (s.rates (some lackingLevels.1) lackingLevels.2).result = .error fault := by
  intro s
  have absent : ∃ column ∈ s.axis :: s.quantities,
      column ∉ lackingLevels.1.columns ∨ column ∉ lackingLevels.2.columns :=
    ⟨"q", by decide, by decide⟩
  refine ⟨absent, (missing_column_fails_iff absent).mpr ?_⟩
  rintro ⟨-, ⟨unmeasured, -⟩ | ⟨-, there⟩⟩
  · exact unmeasured (by decide +kernel)
  · exact absurd ((there "q" (by decide)).2 (by decide +kernel)) (by decide)

/-- The same levels with an invalid cell in the first one. -/
def maskingLevels : Row × Row :=
  (Row.ofPairs [("h", .text "1"), ("q", .text "-1")], Row.ofPairs [("h", .text "0.5")])

/-- Behind the invalid cell the lack is not seen, and there are rates. -/
theorem missing_column_overlooked :
    let s : Study := ⟨"h", ["q"], true⟩
    "q" ∈ s.quantities ∧ "q" ∉ maskingLevels.2.columns ∧
      (s.rates (some maskingLevels.1) maskingLevels.2).result = .ok [.undefined] := by
  intro s
  refine ⟨by decide, by decide, ?_⟩
  have was : maskingLevels.1.measurement? s.axis = some (.ofDecimal false ⟨1, 0⟩) := by
    decide +kernel
  have is : maskingLevels.2.measurement? s.axis = some (.ofDecimal false ⟨5, -1⟩) := by
    decide +kernel
  have tolerated : ∀ f ∈ quantityFaults maskingLevels.1 maskingLevels.2 s.quantities,
      s.tolerates f = true := by decide +kernel
  have unmeasured : ¬ (maskingLevels.1.Measures "q" ∧ maskingLevels.2.Measures "q") := by
    decide +kernel
  rw [rates_of_moved was is (by decide +kernel), quantityRates_of_tolerated tolerated]
  show Except.ok [rateBetween _ _ _ _ "q"] = _
  rw [rateBetween_of_unmeasured unmeasured]

end RefinementTables.Study
