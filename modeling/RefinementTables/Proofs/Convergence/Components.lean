import RefinementTables.Convergence.Rate

/-!
The rates of all quantities, component by component.

A study works on vectors with a component for each quantity, in which a one stands
where nothing was measured. Here the rates are worked out for one quantity after
the other, each from its own measurements, and come out the same.

* `enter_padded`, `leaveOut_padded` — reading the next quantity settles the first
  component that is blank and no other.
* `rates_snoc` — the rate of a component depends on that component only.
* `rates_some` — so the rates between two rows are those of the single quantities.
-/

namespace RefinementTables.Study

variable {s : Study} {before row : Row} {hBefore h : Binary64}

/-! ### One quantity after the other -/

/-- The rates with one more in front. -/
def Rates.cons (rate : Rate) (rest : Rates) : Rates :=
  Passing.map (rate :: ·) rest

/-- The rates of quantities between two rows with different axis values. -/
def quantityRates (s : Study) (before row : Row) (hBefore h : Binary64) : List String → Rates
  | [] => ⟨[], .ok []⟩
  | quantity :: rest =>
    let later := s.quantityRates before row hBefore h rest
    match measures quantity before row with
    | .ok (a, b) => later.cons (.value (observedOrder a b hBefore h))
    | .error fault => s.excuse fault (later.cons .undefined)

theorem Passing.map_map {α β γ : Type} (f : α → β) (g : β → γ) (p : Passing α) :
    (p.map f).map g = p.map fun a => g (f a) := by
  obtain ⟨passed, result⟩ := p
  cases result <;> rfl

theorem map_excuse {α β : Type} (s : Study) (fault : Fault) (f : α → β) (rest : Passing α) :
    (s.excuse fault rest).map f = s.excuse fault (rest.map f) := by
  unfold excuse
  split <;> rfl

/-! ### Vectors that are filled from the left -/

namespace Readings

variable {r : Readings} {i : Nat}

/-- Vectors with a number of components. -/
structure Sized (r : Readings) (n : Nat) : Prop where
  before : r.before.length = n
  now : r.now.length = n
  measured : r.measured.length = n

/-- Vectors with some blank components behind them. -/
def padded (r : Readings) (n : Nat) : Readings :=
  ⟨r.before ++ .replicate n .one, r.now ++ .replicate n .one, r.measured ++ .replicate n true⟩

/-- Vectors with one more component. -/
def snoc (r : Readings) (a b : Binary64) (measured : Bool) : Readings :=
  ⟨r.before ++ [a], r.now ++ [b], r.measured ++ [measured]⟩

theorem Sized.snoc (sized : r.Sized i) (a b : Binary64) (measured : Bool) :
    (r.snoc a b measured).Sized (i + 1) := by
  constructor
  · simp [Readings.snoc, sized.before]
  · simp [Readings.snoc, sized.now]
  · simp [Readings.snoc, sized.measured]

theorem set_append_replicate {α : Type} {xs : List α} (length : xs.length = i) (n : Nat)
    (x y : α) : (xs ++ List.replicate (n + 1) x).set i y = (xs ++ [y]) ++ List.replicate n x := by
  subst length
  simp [List.replicate_succ]

/-- Values that are entered into the first blank component fill it. -/
theorem enter_padded (sized : r.Sized i) (n : Nat) (a b : Binary64) :
    (r.padded (n + 1)).enter i a b = (r.snoc a b true).padded n := by
  simp only [padded, enter, Readings.snoc, set_append_replicate sized.before,
    set_append_replicate sized.now]
  simp [List.replicate_succ]

/-- A first blank component that is left out keeps its ones. -/
theorem leaveOut_padded (sized : r.Sized i) (n : Nat) :
    (r.padded (n + 1)).leaveOut i = (r.snoc .one .one false).padded n := by
  simp only [padded, leaveOut, Readings.snoc, set_append_replicate sized.measured]
  simp [List.replicate_succ]

/-- One more component has its own rate, and the others keep theirs. -/
theorem rates_snoc (sized : r.Sized i) (a b hBefore h : Binary64) (measured : Bool) :
    (r.snoc a b measured).rates hBefore h = r.rates hBefore h ++
      [if measured then .value (observedOrder a b hBefore h) else .undefined] := by
  have paired : r.now.length = r.before.length := sized.now.trans sized.before.symm
  have orders : (r.snoc a b measured).orders hBefore h =
      r.orders hBefore h ++ [observedOrder a b hBefore h] := by
    simp [Readings.orders, Readings.snoc, List.zipWith_append paired, observedOrder]
  have masked : (r.orders hBefore h).length = r.measured.length := by
    simp [Readings.orders, sized.before, sized.now, sized.measured]
  rw [rates, orders, Readings.snoc, List.zipWith_append masked]
  rfl

end Readings

/-- Vectors into which quantities are read have, behind the rates that they had, those
of the single quantities. -/
theorem map_rates_readFrom {r : Readings} {i : Nat} (sized : r.Sized i)
    (quantities : List String) :
    (s.readFrom before row i (r.padded quantities.length) quantities).map (·.rates hBefore h) =
      (s.quantityRates before row hBefore h quantities).map (r.rates hBefore h ++ ·) := by
  induction quantities generalizing r i with
  | nil => simp [readFrom, quantityRates, Passing.map, Readings.padded, Except.map]
  | cons quantity rest ih =>
    rw [readFrom, quantityRates, List.length_cons]
    cases measures quantity before row with
    | ok pair =>
      obtain ⟨a, b⟩ := pair
      dsimp only
      rw [Readings.enter_padded sized, ih (sized.snoc a b true), Rates.cons, Passing.map_map,
        Readings.rates_snoc sized]
      simp
    | error fault =>
      dsimp only
      rw [Readings.leaveOut_padded sized, map_excuse, ih (sized.snoc .one .one false), map_excuse,
        Rates.cons, Passing.map_map, Readings.rates_snoc sized]
      simp

/-- The rates between two rows, by single quantities. -/
theorem rates_some (s : Study) (before row : Row) :
    s.rates (some before) row =
      match measures s.axis before row with
      | .error fault => s.excuse fault s.noRates
      | .ok (hBefore, h) =>
        if h = hBefore then ⟨[], .error (.degenerateRefinement s.axis h row.location)⟩
        else s.quantityRates before row hBefore h s.quantities := by
  have all : ∀ hBefore h,
      (s.readFrom before row 0 (.blank s.quantities.length) s.quantities).map
        (·.rates hBefore h) = s.quantityRates before row hBefore h s.quantities := by
    intro hBefore h
    have sized : (Readings.mk [] [] []).Sized 0 := ⟨rfl, rfl, rfl⟩
    refine (map_rates_readFrom sized s.quantities).trans ?_
    obtain ⟨passed, result⟩ := s.quantityRates before row hBefore h s.quantities
    cases result <;> rfl
  rw [rates]
  cases measures s.axis before row with
  | error fault => rfl
  | ok pair => simp only [all]

end RefinementTables.Study
