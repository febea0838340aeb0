import BoltzmannSampling.Number.Binary64

/-!
Scalars: what the numerical part computes with. Doubles are scalars, and so can be every ordered field, in which
the same definitions are exact.
-/

namespace BoltzmannSampling

class Scalar (α : Type) extends Add α, Sub α, Mul α, Div α where
  ofNat : Nat → α
  ofFloat : Float → α
  -- Powers; the zeroth is one, also of zero.
  pow : α → Nat → α
  abs : α → α
  -- The greater of two; one that is no number wins.
  max : α → α → α
  lt : α → α → Bool
  le : α → α → Bool
  isFinite : α → Bool

namespace Scalar

instance : Scalar Float where
  ofNat n := Binary64.ofRatio false n 1
  ofFloat x := x
  pow x n := Float.pow x (Binary64.ofRatio false n 1)
  abs := Float.abs
  max x y := if x.isNaN then x else if y.isNaN then y else if x < y then y else x
  lt x y := x < y
  le x y := x ≤ y
  isFinite := Float.isFinite

variable {α : Type} [Scalar α]

def half : α := ofNat 1 / ofNat 2

def negate (x : α) : α := ofNat 0 - x

def sum (xs : List α) : α := xs.foldl (· + ·) (ofNat 0)

def product (xs : List α) : α := xs.foldl (· * ·) (ofNat 1)

def norm (xs : List α) : α := xs.foldl (fun m x => max m (abs x)) (ofNat 0)

-- One or the greatest absolute value, whichever is greater: the unit of residuals.
def scale (xs : List α) : α :=
  let m := norm xs
  if lt (ofNat 1) m then m else ofNat 1

end Scalar

end BoltzmannSampling
