import BoltzmannSampling.Tuning.Equations

/-!
The dominant singularity of a system of equations. Doubling brackets it between a point where the equations have a
solution and one where they have none; halving narrows the bracket to the precision; and a candidate near the
bracket takes the place of its lower end if it is an acceptable solution.
-/

namespace BoltzmannSampling

structure Point (α : Type) where
  z : α
  y : List α

-- A point at which the equations are solved, and a greater `z` at which they are not.
structure Bracket (α : Type) where
  low : Point α
  high : α

inductive BracketFault (α : Type) where
  | noSolutionAtZero
  | finiteClass
  | wide (low high : α)
  | noPositivePoint

namespace Bracket

variable {α : Type} [Scalar α]

-- Doubles the upper end while the equations have a solution there, at most so many times.
def double (solve : α → Option (List α)) : Nat → Bracket α → Except (BracketFault α) (Bracket α)
  | 0, _ => .error .finiteClass
  | rounds + 1, b =>
    match solve b.high with
    | none => .ok b
    | some y => double solve rounds ⟨⟨b.high, y⟩, b.high * Scalar.ofNat 2⟩

-- The half of a bracket that has a solution at its lower end and none at its upper end.
def halve (solve : α → Option (List α)) (b : Bracket α) : Bracket α :=
  let middle := Scalar.half * (b.low.z + b.high)
  match solve middle with
  | none => { b with high := middle }
  | some y => { b with low := ⟨middle, y⟩ }

def narrow (precision : α) (b : Bracket α) : Bool :=
  !Scalar.lt (precision * b.high) (b.high - b.low.z)

-- Halves a bracket until it is narrow, at most so many times.
def bisect (solve : α → Option (List α)) (precision : α) :
    Nat → Bracket α → Except (BracketFault α) (Bracket α)
  | 0, b => if b.narrow precision then .ok b else .error (.wide b.low.z b.high)
  | rounds + 1, b => if b.narrow precision then .ok b else bisect solve precision rounds (b.halve solve)

-- The solutions at this many powers of two, from one on, show that a class is finite.
def doublings : Nat := 65

-- A narrow bracket of the singularity with a positive lower end.
def locate (solve : α → Option (List α)) (precision : α) (maxiter : Nat) :
    Except (BracketFault α) (Bracket α) :=
  let start := Scalar.ofNat 0
  match solve start with
  | none => .error .noSolutionAtZero
  | some y => do
    let b ← double solve doublings ⟨⟨start, y⟩, Scalar.ofNat 1⟩
    let b ← bisect solve precision maxiter b
    if Scalar.le b.low.z start then .error .noPositivePoint else .ok b

-- Whether a point may stand for the singularity: it is positive, close to the bracket, not clearly below the solution
-- at the lower end, and solves the equations within the precision. Near a singularity of square-root type Newton's
-- method stalls within about the root of the precision, the `slack`.
def accepts (e : Equations) (slack precision : α) (b : Bracket α) (p : Point α) : Bool :=
  let unit := Scalar.scale p.y
  Scalar.lt (Scalar.ofNat 0) p.z && p.y.all (Scalar.lt (Scalar.ofNat 0) ·) &&
    Scalar.le (b.low.z - slack * b.high) p.z && Scalar.le p.z (b.high + precision * b.high) &&
    (List.zipWith (fun y low => !Scalar.lt y (low - slack * unit)) p.y b.low.y).all (fun ok => ok) &&
    !Scalar.lt (precision * unit) (e.residual p.z p.y)

end Bracket

namespace Equations

variable {α : Type} [Scalar α]

-- The dominant singularity with the values there: a candidate if it is acceptable, else the lower end of the bracket.
def singularity (e : Equations) (solve : α → Option (List α)) (candidate : Bracket α → Option (Point α))
    (slack precision : α) (maxiter : Nat) : Except (BracketFault α) (Point α) :=
  (Bracket.locate solve precision maxiter).map fun b =>
    ((candidate b).filter (b.accepts e slack precision)).getD b.low

end Equations

end BoltzmannSampling
