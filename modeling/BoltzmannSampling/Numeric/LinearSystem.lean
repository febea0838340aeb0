import BoltzmannSampling.Numeric.Scalar

/-!
Linear systems by elimination. Each step takes the row whose first coefficient is greatest in absolute value,
removes the first unknown from the other rows, solves these, and finds the first unknown from the row taken. A
system is singular if a first coefficient taken is zero.
-/

namespace BoltzmannSampling

structure LinearRow (α : Type) where
  coefficients : List α
  constant : α

namespace LinearRow

variable {α : Type} [Scalar α]

def lead (r : LinearRow α) : α := r.coefficients.headD (Scalar.ofNat 0)

def eliminate (pivot r : LinearRow α) : LinearRow α :=
  let factor := r.lead / pivot.lead
  ⟨List.zipWith (fun a p => a - factor * p) r.coefficients.tail pivot.coefficients.tail,
    r.constant - factor * pivot.constant⟩

def first (r : LinearRow α) (others : List α) : α :=
  (r.constant - Scalar.sum (List.zipWith (· * ·) r.coefficients.tail others)) / r.lead

def pivot (r : LinearRow α) : List (LinearRow α) → LinearRow α × List (LinearRow α)
  | [] => (r, [])
  | s :: rest =>
    let (best, others) := pivot s rest
    if Scalar.lt (Scalar.abs r.lead) (Scalar.abs best.lead) then (best, r :: others) else (r, s :: rest)

theorem length_pivot (r : LinearRow α) (rest : List (LinearRow α)) : (pivot r rest).2.length = rest.length := by
  induction rest generalizing r with
  | nil => rfl
  | cons s rest ih =>
    simp only [pivot]
    split
    · simp [ih s]
    · rfl

end LinearRow

namespace LinearSystem

variable {α : Type} [Scalar α]

-- The solution of as many equations as unknowns; `none` if the system is singular.
def solve? : List (LinearRow α) → Option (List α)
  | [] => some []
  | r :: rest =>
    let best := (r.pivot rest).1
    if Scalar.le (Scalar.abs best.lead) (Scalar.ofNat 0) then none
    else
      match solve? ((r.pivot rest).2.map best.eliminate) with
      | some others => some (best.first others :: others)
      | none => none
termination_by rows => rows.length
decreasing_by simp [LinearRow.length_pivot]

def rows (matrix : List (List α)) (constants : List α) : List (LinearRow α) :=
  List.zipWith LinearRow.mk matrix constants

-- The unit matrix less a matrix, whose order is `n`.
def unitMinus (n : Nat) (matrix : List (List α)) : List (List α) :=
  List.zipWith
    (fun i row => List.zipWith (fun j a => (if i = j then Scalar.ofNat 1 else Scalar.ofNat 0) - a) (List.range n) row)
    (List.range n) matrix

end LinearSystem

end BoltzmannSampling
