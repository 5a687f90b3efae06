/-!
The slope of the line that fits points in the sense of least squares, by the
singular values of its design matrix.

The matrix has the rows `(x, 1)`. Two reflections bring it into the form of an
upper triangle of two rows, and a rotation on either side brings the triangle
into diagonal form. What a singular value contributes to the slope is divided by
it, and a singular value that is negligible contributes nothing, so that of all
lines that fit equally well the least steep and least high one is taken.

Where the abscissas nearly agree, the rounding of the single operations shows in
the slope. The order of the operations, and that in which sums are added up, is
therefore as much part of the definitions as what they compute.
-/

namespace RefinementTables.LeastSquares

/-! ### Sums -/

/-- The sums of eight interleaved lanes of a list, and what is left at its end
when fewer than eight numbers remain. -/
def lanes (sums : List Float) : List Float → List Float × List Float
  | a :: b :: c :: d :: e :: f :: g :: h :: rest =>
    lanes (List.zipWith (· + ·) sums [a, b, c, d, e, f, g, h]) rest
  | rest => (sums, rest)

/-- A sum: the lanes four apart are added to each other, then their sums and the
rest one by one. -/
def sum (xs : List Float) : Float :=
  let (sums, rest) := lanes (List.replicate 8 0) xs
  (List.zipWith (· + ·) (sums.take 4) (sums.drop 4) ++ rest).foldl (· + ·) 0

def dot (xs ys : List Float) : Float := sum (List.zipWith (· * ·) xs ys)

/-- The largest absolute value, or one if all are smaller. -/
def largest (xs : List Float) : Float :=
  xs.foldl (fun m x => if m < x.abs then x.abs else m) 1

/-- The vector of a length with a one in front of zeros. -/
def basis : Nat → List Float
  | 0 => []
  | n + 1 => 1 :: List.replicate n 0

/-- A length with the sign of a number. -/
def signed (x length : Float) : Float := if 0 ≤ x then length else -length

/-! ### Reflections -/

/-- A reflection that takes a vector to a multiple of the first basis vector, and
that multiple. The axis is a unit vector, or zero if the vector was. -/
structure Reflection where
  axis : List Float
  image : Float

namespace Reflection

/-- The reflection for a vector. Its axis is normalized twice, since the first
time may leave it slightly off. -/
def ofVector : List Float → Reflection
  | [] => ⟨[], 0⟩
  | x :: xs =>
    let square := dot (x :: xs) (x :: xs)
    let length := signed x square.sqrt
    let factor := (square + x.abs * square.sqrt) * 2
    let shifted := (x + length) :: xs
    if factor == 0 then ⟨shifted, length⟩
    else
      let axis := shifted.map (· / factor.sqrt)
      ⟨axis.map (· / (dot axis axis).sqrt), -length⟩

/-- A vector after the reflection, turned so that the image is positive. Without
an axis it stays. -/
def apply (r : Reflection) (ys : List Float) : List Float :=
  if dot r.axis r.axis == 0 then ys
  else
    let sign := signed r.image 1
    let factor := dot r.axis ys * (sign * -2)
    List.zipWith (fun a y => factor * a + sign * y) r.axis ys

end Reflection

/-! ### Rotations -/

structure Rotation where
  cosine : Float
  sine : Float

namespace Rotation

def identity : Rotation := ⟨1, 0⟩

def inverse (r : Rotation) : Rotation := ⟨r.cosine, -r.sine⟩

/-- The rotation in the direction of a point, or in the opposite one if its
abscissa is negative, and the point's distance with the sign of the abscissa. -/
def toward (x y : Float) : Rotation × Float :=
  let distance := (x * x + y * y).sqrt
  if 0 < distance then (⟨x.abs / distance, y / signed x distance⟩, signed x distance)
  else (identity, 0)

/-- Two columns after a rotation. -/
def columns (r : Rotation) (us vs : List Float) : List Float × List Float :=
  (List.zipWith (fun u v => u * r.cosine + r.sine * v) us vs,
    List.zipWith (fun u v => -r.sine * u + v * r.cosine) us vs)

end Rotation

/-! ### Triangles -/

/-- The matrix with the rows `(first, beside)` and `(0, second)`. -/
structure Triangle where
  first : Float
  beside : Float
  second : Float

/-- A triangle brought into diagonal form: its values in either order and of
either sign, the rotation of the left vectors, and the first entries of the right
vectors. -/
structure Diagonal where
  values : Float × Float
  left : Rotation
  right : Float × Float

namespace Triangle

/-- What is this small beside its neighbours counts as zero: five times the
distance from one to the next number. -/
def tolerance : Float := 2.220446049250313e-16 * 5

/-- The length of a vector in the plane. The rounding of the squares shows in the
root of their sum, so the amount by which its square is too large is worked out
from the differences to the sides, where little is lost, and taken back. -/
def hypotenuse (x y : Float) : Float :=
  let (long, short) := if x.abs < y.abs then (y.abs, x.abs) else (x.abs, y.abs)
  let root := (long * long + short * short).sqrt
  let excess :=
    if root ≤ 2 * short then
      let d := root - short
      long * (2 * d - long) + (d - 2 * (long - short)) * d
    else
      let d := root - long
      2 * d * (long - 2 * short) + ((4 * d - short) * short + d * d)
  if root == 0 then 0 else root - excess / (2 * root)

/-- The diagonal form of a triangle without negligible entries. The smaller value
is computed from the product of the two, so that nothing cancels. The first
rotation stretches both values, and the second one undoes that. -/
def rotate (t : Triangle) : Diagonal :=
  let sum := hypotenuse (t.first + t.second) t.beside + hypotenuse (t.first - t.second) t.beside
  let small := t.first * t.second * 2 / sum
  let large := 0.5 * sum
  let (right, stretch) :=
    Rotation.toward (t.first * t.beside) (small * small - t.first * t.first)
  let small := small * stretch
  let large := large * stretch
  let (left, stretch) :=
    Rotation.toward ((t.first * right.cosine + t.beside * right.sine) / small)
      (t.second * right.sine / small)
  ⟨(small * stretch, large * stretch), left, (right.cosine, -right.sine)⟩

/-- The diagonal form of a triangle. A negligible entry is taken as zero, and if
it is on the diagonal the entry beside it is rotated away. -/
def diagonalize (t : Triangle) : Diagonal :=
  if t.beside.abs ≤ tolerance * (t.second.abs + t.first.abs) then
    ⟨(t.first, t.second), .identity, (1, 0)⟩
  else if t.first.abs ≤ tolerance then
    let (rotation, value) := Rotation.toward t.second t.beside
    ⟨(0, value), rotation.inverse, (1, 0)⟩
  else if t.second.abs ≤ tolerance then
    let (rotation, value) := Rotation.toward t.first (-t.beside)
    ⟨(value, 0), .identity, (rotation.cosine, rotation.sine)⟩
  else t.rotate

end Triangle

/-! ### Singular values -/

/-- A singular value with its left vector and the first entry of its right one. -/
structure Component where
  value : Float
  left : List Float
  right : Float

namespace Component

/-- The same component with a value that is not negative. -/
def orient (c : Component) : Component :=
  if c.value < 0 then ⟨-c.value, c.left.map (- ·), c.right⟩ else c

/-- Two components, the one with the larger value first. -/
def order (a b : Component) : List Component :=
  if a.value < b.value then [b, a] else [a, b]

end Component

/-- The components of the matrix with a row `(x, 1)` for each abscissa. It is
divided by its largest entry first. -/
def components (xs : List Float) : List Component :=
  let scale := largest xs
  let first := Reflection.ofVector (xs.map (· / scale))
  let ones := first.apply (xs.map fun _ => 1 / scale)
  let beside := ones.headD 0
  let second := Reflection.ofVector (ones.tail.map (signed beside 1 * ·))
  let n := xs.length
  let left := (first.apply (basis n), first.apply (0 :: second.apply (basis (n - 1))))
  let d := (Triangle.mk first.image.abs beside.abs second.image.abs).diagonalize
  let left := d.left.columns left.1 left.2
  Component.order (Component.orient ⟨d.values.1 * scale, left.1, d.right.1⟩)
    (Component.orient ⟨d.values.2 * scale, left.2, d.right.2⟩)

/-- Singular values up to this one contribute nothing. -/
def negligible : Float := 1e-12

/-- The slope of the fitted line. -/
def slope (points : List (Float × Float)) : Float :=
  let cs := components (points.map Prod.fst)
  let ys := points.map Prod.snd
  dot (cs.map Component.right)
    (cs.map fun c => if negligible < c.value then dot c.left ys / c.value else 0)

end RefinementTables.LeastSquares
