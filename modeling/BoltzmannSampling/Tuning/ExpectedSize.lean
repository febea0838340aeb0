import BoltzmannSampling.Numeric.Brent
import BoltzmannSampling.Tuning.Singularity

/-!
The point below a singularity at which one type has a given expected size.
-/

namespace BoltzmannSampling

inductive ExpectedSizeFault (α : Type) where
  | noFixedPoint (z : α)
  | singular
  | goalTooSmall
  | tooManySteps
  | notConverged

namespace Equations

variable {α : Type} [Scalar α]

def valuesAt (solve : α → Option (List α)) (top : Point α) (z : α) : Except (ExpectedSizeFault α) (List α) :=
  if Scalar.le z top.z && Scalar.le top.z z then .ok top.y
  else
    match solve z with
    | some y => .ok y
    | none => .error (.noFixedPoint z)

-- The expected size at `z` of the type at a place, less the goal; infinite where it is not a number.
def excess (e : Equations) (solve : α → Option (List α)) (top : Point α) (place : Nat) (goal z : α) :
    Except (ExpectedSizeFault α) α := do
  let y ← valuesAt solve top z
  match e.expectedSizes z y with
  | none => .error .singular
  | some sizes =>
    let size := sizes.getD place (Scalar.ofNat 0)
    .ok (if Scalar.isFinite size then size - goal else Scalar.ofNat 1 / Scalar.ofNat 0)

-- The relative width to which a root is located whatever the precision.
def rootTolerance : α := Scalar.ofNat 1 / Scalar.ofNat (twoTo 50)

def mostSteps : Nat := twoTo 31 - 1

-- The singularity itself if the goal is not reached before; else the root between it and a millionth of it.
def expectedSizePoint (e : Equations) (solve : α → Option (List α)) (precision : α) (maxiter : Nat) (top : Point α)
    (place : Nat) (goal : α) : Except (ExpectedSizeFault α) (Point α) := do
  let f := e.excess solve top place goal
  if Scalar.le (← f top.z) (Scalar.ofNat 0) then return top
  let bottom := top.z * (Scalar.ofNat 1 / Scalar.ofNat 1000000)
  if Scalar.le (Scalar.ofNat 0) (← f bottom) then throw .goalTooSmall
  if mostSteps < maxiter then throw .tooManySteps
  match ← Brent.root f bottom top.z (precision * top.z) rootTolerance maxiter with
  | none => throw .notConverged
  | some z => return ⟨z, ← valuesAt solve top z⟩

end Equations

end BoltzmannSampling
