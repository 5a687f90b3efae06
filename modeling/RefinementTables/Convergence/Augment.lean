import RefinementTables.Convergence.Fit

/-!
Augmenting a stream of rows with its rates.

Each row gets the rates against the last row that came out before it, and a
sample for the fit of every quantity that it measures. An item that is a fault,
or that leads to one, comes out as that fault and leaves no trace: the next row
is compared with the row before it.
-/

namespace RefinementTables.Study

/-- Where a stream stands: the last row that came out, and the samples so far,
one list for each quantity. -/
structure Progress where
  previous : Option Row
  samples : List (List Sample)
deriving DecidableEq, Repr

def Progress.start (s : Study) : Progress := ⟨none, s.quantities.map fun _ => []⟩

/-- The sample of a quantity in a row with a given axis value. -/
def sample? (row : Row) (h : Binary64) (quantity : String) : Option Sample :=
  match row.measure quantity with
  | .ok q => some ⟨h.log, q.log⟩
  | .error _ => none

/-- The samples with those of one more row. -/
def observe (s : Study) (row : Row) (samples : List (List Sample)) : List (List Sample) :=
  match row.measure s.axis with
  | .error _ => samples
  | .ok h => List.zipWith (fun seen q => seen ++ (sample? row h q).toList) samples s.quantities

/-- A row with its rates. -/
def attach (s : Study) (row : Row) (rates : List Rate) : Row :=
  (s.rateNames.zip rates).foldl (fun r (column, rate) => r.insert column rate.cell) row

/-- One item of an augmented stream: what came out, the faults that were passed
over for it, and where the stream stands then. -/
structure Step where
  item : Except Fault Row
  passed : List Fault
  after : Progress

/-- Treats one item. -/
def step (s : Study) (progress : Progress) : Except Fault Row → Step
  | .error fault => ⟨.error fault, [], progress⟩
  | .ok row =>
    let rates := s.rates progress.previous row
    match rates.result with
    | .error fault => ⟨.error fault, rates.passed, progress⟩
    | .ok values =>
      ⟨.ok (s.attach row values), rates.passed, ⟨some row, s.observe row progress.samples⟩⟩

/-- The steps of a stream from some progress on. -/
def stepsFrom (s : Study) (progress : Progress) : RowStream → List Step
  | [] => []
  | item :: rest =>
    let step := s.step progress item
    step :: s.stepsFrom step.after rest

/-- The steps of a whole stream. -/
def augment (s : Study) (rows : RowStream) : List Step :=
  s.stepsFrom (.start s) rows

/-- Where a stream stands after some steps. -/
def progressAfter (s : Study) (steps : List Step) : Progress :=
  (steps.getLast?.map Step.after).getD (.start s)

/-- The fitted order of every quantity. -/
def Progress.orders (p : Progress) : List (Option Binary64) :=
  p.samples.map Sample.fittedOrder

end RefinementTables.Study
