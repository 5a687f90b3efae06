import RefinementTables.Convergence.LeastSquares
import RefinementTables.Convergence.Rate

/-!
The order of convergence over a whole sequence: the slope of the line that fits
the samples `(ln h, ln q)` in the sense of least squares.

With fewer than two samples there is no slope, and with no width between the least
and the greatest `ln h` there is none either. Both ends are compared by rank: the
logarithm of a measurement is finite, and no logarithm is the negative zero, so that
ranks are ordered as the logarithms are.
-/

namespace RefinementTables

/-- One level of one quantity: the logarithms of the axis and of the quantity. -/
structure Sample where
  lnH : Binary64
  lnQ : Binary64
deriving DecidableEq, Repr

namespace Sample

/-- A sample as a point of the plane. -/
def point (s : Sample) : Float × Float := (s.lnH.toFloat, s.lnQ.toFloat)

/-- The rank of the least `ln h`; without samples, the end above all. -/
def lowest (samples : List Sample) : Int :=
  (samples.map (·.lnH.rank)).foldl min Binary64.greatestRank

/-- The rank of the greatest `ln h`; without samples, the end below all. -/
def highest (samples : List Sample) : Int :=
  (samples.map (·.lnH.rank)).foldl max Binary64.leastRank

/-- Whether no line through the samples has a slope: there are too few of them, or
they have one `ln h`. -/
def isVertical (samples : List Sample) : Bool :=
  samples.length < 2 || highest samples ≤ lowest samples

/-- The fitted order of a quantity, if two levels differ. -/
def fittedOrder (samples : List Sample) : Option Binary64 :=
  if isVertical samples then none
  else some (.ofFloat (LeastSquares.slope (samples.map point)))

end Sample

end RefinementTables
