import BoltzmannSampling.Tuning.Singularity

/-!
The fold near a bracket. At a singularity of square-root type the Jacobian has the eigenvalue one, so that the
point solves `Φ(z, Y) = Y`, `J u = u` and `Σ u = 1` in `z`, `Y` and `u`. Newton's method, with difference
quotients for derivatives, finds it from the lower end of the bracket. At a pole there is no fold.
-/

namespace BoltzmannSampling

namespace Fold

def apply (matrix : List (List Float)) (v : List Float) : List Float :=
  matrix.map fun row => Scalar.sum (List.zipWith (· * ·) row v)

-- Absolute values divided by their sum; `none` if this is not a positive number.
def shares? (v : List Float) : Option (List Float) :=
  let total := Scalar.sum (v.map Float.abs)
  if total.isFinite && 0 < total then some (v.map fun x => x.abs / total) else none

-- Inverse iteration: the eigenvector of a matrix whose eigenvalue is nearest to one. A shift keeps the linear systems
-- regular.
def eigenvector (matrix : List (List Float)) : Nat → List Float → Option (List Float)
  | 0, v => some v
  | rounds + 1, v =>
    let shifted := (LinearSystem.unitMinus v.length matrix).zipIdx.map fun (row, i) => row.modify i (· + 1e-11)
    match (LinearSystem.solve? (LinearSystem.rows shifted v)).bind shares? with
    | some next => eigenvector matrix rounds next
    | none => none

-- The left-hand sides at a vector that holds `z`, the values and the eigenvector.
def excess (e : Equations) (x : List Float) : List Float :=
  let z := x.headD 0
  let y := x.tail.take e.order
  let u := x.tail.drop e.order
  List.zipWith (· - ·) (e.phi z y) y ++ List.zipWith (· - ·) (apply (e.jacobian z y) u) u ++ [Scalar.sum u - 1]

def increment (x : Float) : Float := if x == 0 then 1.5e-8 else 1.5e-8 * x.abs

def gradients (f : List Float → List Float) (x fx : List Float) : List (List Float) :=
  x.zipIdx.map fun (value, i) =>
    let h := increment value
    List.zipWith (fun a b => (a - b) / h) (f (x.set i (value + h))) fx

def transpose (columns : List (List Float)) (order : Nat) : List (List Float) :=
  (List.range order).map fun i => columns.map (·.getD i 0)

-- How far beyond the scale of the start the search may go: towards a pole it goes on for ever.
def reach : Float := 100

-- Newton's method for a zero of a function inside a bound. It ends when the components that count move no longer.
def zero? (f : List Float → List Float) (counted : Nat) (bound : Float) : Nat → List Float → Option (List Float)
  | 0, _ => none
  | rounds + 1, x =>
    let fx := f x
    let matrix := transpose (gradients f x fx) x.length
    match LinearSystem.solve? (LinearSystem.rows matrix (fx.map fun v => -v)) with
    | none => none
    | some step =>
      let next := List.zipWith (· + ·) x step
      if !next.all fun v => v.isFinite && v.abs ≤ bound then none
      else if ((step.zip next).take counted).all fun (s, v) => s.abs ≤ 1e-9 * v.abs then some next
      else zero? f counted bound rounds next

-- The fold near the lower end of a bracket.
def candidate (e : Equations) (b : Bracket Float) : Option (Point Float) := do
  let jacobian := e.jacobian b.low.z b.low.y
  let start ← shares? (List.replicate e.order 1)
  let v ← eigenvector jacobian 8 start
  let x ← zero? (excess e) (e.order + 1) (reach * Scalar.scale b.low.y) 60 (b.low.z :: b.low.y ++ v)
  some ⟨x.headD 0, x.tail.take e.order⟩

end Fold

end BoltzmannSampling
