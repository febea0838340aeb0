import BoltzmannSampling.Tuning.Singularity

/-!
Branching probabilities: at a solution the probability of a constructor is its term divided by the sum of the terms
of its type.
-/

namespace BoltzmannSampling

-- A value that is not positive and finite, or a type without such a sum of terms.
inductive BranchingFault (α : Type) where
  | value (typeName : String) (found : α)
  | noTerm (typeName : String)

namespace Equations

variable {α : Type} [Scalar α]

def isPositive (x : α) : Bool := Scalar.isFinite x && !Scalar.le x (Scalar.ofNat 0)

def checkValues : List (String × α) → Except (BranchingFault α) Unit
  | [] => .ok ()
  | (name, v) :: rest => if isPositive v then checkValues rest else .error (.value name v)

-- The shares of the terms of one type in their sum.
def sharesOf (typeName : String) (terms : List α) : Except (BranchingFault α) (List α) :=
  let total := Scalar.sum terms
  if isPositive total then .ok (terms.map (· / total)) else .error (.noTerm typeName)

def slices : List Nat → List α → List (List α)
  | [], _ => []
  | n :: lengths, xs => xs.take n :: slices lengths (xs.drop n)

-- The probabilities of the constructors of every type of a table at a point.
def branching (e : Equations) (types : List TypeDef) (p : Point α) : Except (BranchingFault α) (List (List α)) := do
  checkValues (e.names.zip p.y)
  (types.zip (slices (types.map (·.constructors.length)) (e.values p.z p.y))).mapM fun (t, terms) =>
    sharesOf t.name terms

end Equations

end BoltzmannSampling
