import Mathlib.Data.List.Chain
import RefinementTables.Proofs.Convergence.Rates

/-!
Augmenting whole streams.

`step_cases` says everything that the treatment of one item can do; the rest is
by induction on the stream, with the progress carried along.

* `augment_survivors` — an item that comes out as a fault leaves no trace: without
  all such items, the others come out the same.
* `augment_strict` — a strict study comes through a stream of rows exactly if each
  row can follow the one before it, and every row then has its own cells and
  behind them its rates.
-/

namespace RefinementTables.Study

variable {s : Study} {p : Progress} {item : Except Fault Row} {rows : List Row}

/-! ### One item -/

/-- An item is a row that comes out with its rates and is what the next row is
compared with, or it comes out as a fault and nothing has happened. -/
theorem step_cases (s : Study) (p : Progress) (item : Except Fault Row) :
    (∃ row values, item = .ok row ∧ (s.rates p.previous row).result = .ok values ∧
      (s.step p item).item = .ok (s.attach row values) ∧
      (s.step p item).after = ⟨some row, s.observe row p.samples⟩) ∨
    ∃ fault, (item = .error fault ∨
        ∃ row, item = .ok row ∧ (s.rates p.previous row).result = .error fault) ∧
      (s.step p item).item = .error fault ∧ (s.step p item).after = p := by
  cases item with
  | error fault => exact .inr ⟨fault, .inl rfl, rfl, rfl⟩
  | ok row =>
    rw [step]
    cases rates : (s.rates p.previous row).result with
    | error fault => exact .inr ⟨fault, .inr ⟨row, rfl, rates⟩, rfl, rfl⟩
    | ok values => exact .inl ⟨row, values, rfl, rates, rfl, rfl⟩

theorem stepsFrom_cons (s : Study) (p : Progress) (item : Except Fault Row) (rest : RowStream) :
    s.stepsFrom p (item :: rest) = s.step p item :: s.stepsFrom (s.step p item).after rest := rfl

/-! ### Faults leave no trace -/

/-- The progress after the steps of a stream. -/
def progressFrom (p : Progress) (steps : List Step) : Progress :=
  (steps.getLast?.map Step.after).getD p

theorem progressFrom_cons (p : Progress) (step : Step) (steps : List Step) :
    progressFrom p (step :: steps) = progressFrom step.after steps := by
  unfold progressFrom
  cases last : steps.getLast? with
  | none =>
    rw [List.getLast?_eq_none_iff.mp last]
    rfl
  | some final => simp [List.getLast?_cons, last]

/-- The items of a stream that do not come out as faults, from some progress on. -/
def survivorsFrom (s : Study) (p : Progress) (stream : RowStream) : RowStream :=
  ((stream.zip (s.stepsFrom p stream)).filter fun (_, step) => step.item.isOk).map Prod.fst

/-- The items of a stream that do not come out as faults. -/
def survivors (s : Study) (stream : RowStream) : RowStream :=
  s.survivorsFrom (.start s) stream

theorem survivorsFrom_cons (s : Study) (p : Progress) (item : Except Fault Row)
    (rest : RowStream) :
    s.survivorsFrom p (item :: rest) =
      if (s.step p item).item.isOk then item :: s.survivorsFrom (s.step p item).after rest
      else s.survivorsFrom (s.step p item).after rest := by
  unfold survivorsFrom
  rw [stepsFrom_cons, List.zip_cons_cons, List.filter_cons]
  dsimp only
  split <;> rfl

/-- The survivors of a stream take the steps that they took in it. -/
theorem stepsFrom_survivorsFrom (s : Study) (p : Progress) (stream : RowStream) :
    s.stepsFrom p (s.survivorsFrom p stream) =
        (s.stepsFrom p stream).filter (fun step => step.item.isOk) ∧
      progressFrom p (s.stepsFrom p (s.survivorsFrom p stream)) =
        progressFrom p (s.stepsFrom p stream) := by
  induction stream generalizing p with
  | nil => exact ⟨rfl, rfl⟩
  | cons item rest ih =>
    obtain ⟨steps, progress⟩ := ih (s.step p item).after
    rw [survivorsFrom_cons, stepsFrom_cons, progressFrom_cons, List.filter_cons]
    rcases step_cases s p item with ⟨row, values, -, -, out, -⟩ | ⟨fault, -, out, same⟩
    · have came_out : (s.step p item).item.isOk = true := by
        rw [out]
        rfl
      rw [if_pos came_out, if_pos came_out, stepsFrom_cons, progressFrom_cons, steps]
      exact ⟨rfl, steps ▸ progress⟩
    · have failed : ¬ (s.step p item).item.isOk = true := by
        rw [out]
        exact Bool.false_ne_true
      rw [if_neg failed, if_neg failed]
      rw [same] at steps progress ⊢
      exact ⟨steps, progress⟩

/-- Without the items that come out as faults, whatever these are, a stream comes
out as before: no item fails, and the steps of the others, with the records, the
faults passed over and the progress after them, are those that they took among
the failing ones. So is the progress at the end, and with it all samples. -/
theorem augment_survivors (s : Study) (stream : RowStream) :
    (∀ step ∈ s.augment (s.survivors stream), step.item.isOk = true) ∧
      s.augment (s.survivors stream) =
        (s.augment stream).filter (fun step => step.item.isOk) ∧
      s.progressAfter (s.augment (s.survivors stream)) = s.progressAfter (s.augment stream) := by
  obtain ⟨steps, progress⟩ := stepsFrom_survivorsFrom s (.start s) stream
  refine ⟨?_, steps, progress⟩
  intro step hs
  rw [survivors, augment, steps] at hs
  exact (List.mem_filter.mp hs).2

/-! ### The rows that came out -/

/-- The rows that came out among the first items of a stream, from some progress on. -/
def rowsOutFrom (s : Study) (p : Progress) (stream : RowStream) (n : Nat) : List Row :=
  ((stream.zip (s.stepsFrom p stream)).take n).filterMap fun (item, step) =>
    if step.item.isOk then item.toOption else none

/-- The rows that came out among the first items of a stream. -/
def rowsOut (s : Study) (stream : RowStream) (n : Nat) : List Row :=
  s.rowsOutFrom (.start s) stream n

theorem rowsOutFrom_succ (s : Study) (p : Progress) (item : Except Fault Row)
    (rest : RowStream) (n : Nat) :
    s.rowsOutFrom p (item :: rest) (n + 1) =
      (if (s.step p item).item.isOk then item.toOption else none).toList ++
        s.rowsOutFrom (s.step p item).after rest n := by
  rw [rowsOutFrom, stepsFrom_cons, List.zip_cons_cons, List.take_succ_cons, List.filterMap_cons]
  dsimp only
  cases (if (s.step p item).item.isOk then item.toOption else none) <;> rfl

theorem mem_of_mem_rowsOut {s : Study} {n : Nat} {row : Row}
    (came_out : row ∈ s.rowsOut (rows.map .ok) n) : row ∈ rows := by
  obtain ⟨⟨item, step⟩, paired, found⟩ := List.mem_filterMap.mp came_out
  obtain ⟨there, -⟩ := List.of_mem_zip (List.mem_of_mem_take paired)
  obtain ⟨other, mem, rfl⟩ := List.mem_map.mp there
  dsimp only at found
  split at found
  · cases found
    exact mem
  · cases found

/-- Every item is treated once, and a row is compared with the last one that came out
before it. -/
theorem getElem?_stepsFrom {stream : RowStream} {n : Nat} (here : stream[n]? = some item) :
    ∃ q : Progress, (s.stepsFrom p stream)[n]? = some (s.step q item) ∧
      q.previous = (s.rowsOutFrom p stream n).getLast?.or p.previous := by
  induction stream generalizing p n with
  | nil => cases here
  | cons first rest ih =>
    rw [stepsFrom_cons]
    cases n with
    | zero =>
      cases here
      exact ⟨p, rfl, rfl⟩
    | succ n =>
      obtain ⟨q, treated, previous⟩ := ih (p := (s.step p first).after) here
      refine ⟨q, treated, previous.trans ?_⟩
      rw [rowsOutFrom_succ]
      rcases step_cases s p first with ⟨row, values, rfl, -, out, after⟩ | ⟨fault, -, out, same⟩
      · rw [out, after]
        simp [Except.isOk, Except.toBool, Except.toOption, List.getLast?_cons]
      · rw [out, same]
        rfl

/-! ### Strict studies -/

/-- A strict study comes through the rows after one exactly if each can follow the
one before it. -/
theorem stepsFrom_ok_iff (strict : s.lenient = false) {before : Row}
    {samples : List (List Sample)} :
    (∀ step ∈ s.stepsFrom ⟨some before, samples⟩ (rows.map .ok), step.item.isOk = true) ↔
      (before :: rows).IsChain s.Follows := by
  induction rows generalizing before samples with
  | nil => simp [stepsFrom]
  | cons row rest ih =>
    rw [List.map_cons, stepsFrom_cons, List.forall_mem_cons, List.isChain_cons_cons]
    rcases step_cases s ⟨some before, samples⟩ (.ok row) with
      ⟨_, values, same, rates, out, after⟩ | ⟨fault, cause, out, -⟩
    · cases same
      obtain ⟨follows, -⟩ := (rates_ok_iff strict).mp rates
      rw [out, after, ih]
      exact and_congr_left fun _ => ⟨fun _ => follows, fun _ => rfl⟩
    · rw [out]
      refine ⟨fun ⟨came_out, _⟩ => absurd came_out (by simp [Except.isOk, Except.toBool]), ?_⟩
      rintro ⟨follows, -⟩
      obtain ⟨values, rates⟩ := follows.rates strict
      rcases cause with same | ⟨_, same, failed⟩
      · cases same
      · cases same
        rw [rates] at failed
        cases failed

/-- That each row can follow the one before it asks nothing of a single row, and of
more rows that all are measured and no two neighbours have one axis value. -/
theorem isChain_follows_iff :
    rows.IsChain s.Follows ↔
      rows.length ≤ 1 ∨ (∀ row ∈ rows, s.Measured row) ∧
        rows.IsChain fun before row => before.number? s.axis ≠ row.number? s.axis := by
  induction rows with
  | nil => simp
  | cons first rest ih =>
    cases rest with
    | nil => simp
    | cons second rest =>
      rw [List.isChain_cons_cons, List.isChain_cons_cons, ih]
      constructor
      · rintro ⟨follows, single | ⟨measured, moved⟩⟩
        · have last : rest = [] := by simpa using single
          subst last
          refine .inr ⟨?_, follows.moved, .singleton second⟩
          exact List.forall_mem_cons.mpr
            ⟨follows.measured_before, List.forall_mem_singleton.mpr follows.measured⟩
        · exact .inr ⟨List.forall_mem_cons.mpr ⟨follows.measured_before, measured⟩,
            follows.moved, moved⟩
      · rintro (single | ⟨measured, moved, later⟩)
        · simp at single
        · obtain ⟨measured_first, measured⟩ := List.forall_mem_cons.mp measured
          exact ⟨⟨measured_first, measured second List.mem_cons_self, moved⟩,
            .inr ⟨measured, later⟩⟩

/-- The rate of a quantity, seen from the row before: the first row has none, and
that of every other row is the observed order. -/
def RateAfter (s : Study) (before : Option Row) (row : Row) (quantity : String) (rate : Rate) :
    Prop :=
  match before with
  | none => rate = .undefined
  | some before => s.IsRate before row quantity rate

/-- An augmented row, seen from the row before it: the cells of the row, and then
one rate for each quantity. -/
structure Augmented (s : Study) (before : Option Row) (row out : Row) : Prop where
  origin : out.origin = row.origin
  cells : ∃ rates, out.cells = row.cells ++ s.rateNames.zip (rates.map Rate.cell) ∧
    List.Forall₂ (s.RateAfter before row) s.quantities rates

theorem rateAfter_of_rates (strict : s.lenient = false) {before : Option Row} {row : Row}
    {values : List Rate} (ok : (s.rates before row).result = .ok values) :
    List.Forall₂ (s.RateAfter before row) s.quantities values := by
  cases before with
  | some before => exact ((rates_ok_iff strict).mp ok).2
  | none =>
    cases ok
    rw [List.forall₂_map_right_iff, List.forall₂_same]
    exact fun _ _ => rfl

/-- A strict study that comes through rows without rate columns has augmented each
of them against the row before it. -/
theorem stepsFrom_augmented (strict : s.lenient = false) (distinct : s.quantities.Nodup)
    (new : ∀ row ∈ rows, ∀ quantity ∈ s.quantities, rateName quantity ∉ row.columns)
    (through : ∀ step ∈ s.stepsFrom p (rows.map .ok), step.item.isOk = true) :
    ∃ out : List Row, (s.stepsFrom p (rows.map .ok)).map Step.item = out.map .ok ∧
      List.Forall₂ (fun (before, row) out => s.Augmented before row out)
        ((p.previous :: rows.map some).zip rows) out := by
  induction rows generalizing p with
  | nil => exact ⟨[], rfl, .nil⟩
  | cons row rest ih =>
    rw [List.map_cons, stepsFrom_cons, List.forall_mem_cons] at through
    obtain ⟨new_row, new_rest⟩ := List.forall_mem_cons.mp new
    rcases step_cases s p (.ok row) with
      ⟨_, values, same, rates, item, after⟩ | ⟨fault, -, item, -⟩
    · cases same
      rw [after] at through
      obtain ⟨out, items, augmented⟩ := ih new_rest through.2
      have rated := rateAfter_of_rates strict rates
      have attached := attach_eq distinct new_row rated.length_eq.symm
      refine ⟨s.attach row values :: out, ?_, .cons ?_ augmented⟩
      · rw [List.map_cons, stepsFrom_cons, List.map_cons, item, after, items, List.map_cons]
      · rw [attached]
        exact ⟨rfl, values, rfl, rated⟩
    · rw [item] at through
      exact absurd through.1 (by simp [Except.isOk, Except.toBool])

/-- Three levels of one quantity: the second halves the width, and the third keeps
it. -/
def threeLevels : List Row :=
  let row := fun h q => Row.ofPairs [("h", .text h), ("q", .text q)]
  [row "1" "4", row "0.5" "1", row "0.5" "2"]

end RefinementTables.Study
