import BoltzmannSampling.Numeric.LinearSystem
import BoltzmannSampling.Specification.Basic
import BoltzmannSampling.Failure

/-!
The generating-function equations of a system. Every type `T` has the equation `Y_T = Φ_T(z, Y)`, where `Φ_T` is
the sum of the terms of its constructors: the weight, times `z` to the size, times the values of the types referred
to. The least solution is found by Newton's method from zero, in any scalars.
-/

namespace BoltzmannSampling

-- The term of one constructor: `weight · z ^ size · ∏ⱼ Yⱼ ^ exponentsⱼ`, in the equation of its owner.
structure Term where
  constructor : String
  typeName : String
  owner : Nat
  weight : Float
  size : Nat
  exponents : List Nat

structure Equations where
  names : List String
  terms : List Term

namespace Term

def ofConstructor (names : List String) (owner : Nat) (typeName : String) (c : Constructor Symbol) : Term :=
  ⟨c.name, typeName, owner, c.weight, c.size, names.map fun n => c.refs.count n⟩

variable {α : Type} [Scalar α]

def monomial (y : List α) (exponents : List Nat) : α :=
  Scalar.product (List.zipWith Scalar.pow y exponents)

def value (t : Term) (z : α) (y : List α) : α :=
  Scalar.ofFloat t.weight * Scalar.pow z t.size * monomial y t.exponents

-- The exponents with the one at a place lowered by one.
def lowered (t : Term) (j : Nat) : List Nat := t.exponents.modify j (· - 1)

-- The derivative by the value at a place where the exponent is not zero.
def derivative (t : Term) (j : Nat) (z : α) (y : List α) : α :=
  Scalar.ofNat (t.exponents.getD j 0) * Scalar.ofFloat t.weight * Scalar.pow z t.size * monomial y (t.lowered j)

def slope (t : Term) (z : α) (y : List α) : α :=
  let power := if t.size = 0 then Scalar.ofNat 0 else Scalar.ofNat t.size * Scalar.pow z (t.size - 1)
  Scalar.ofFloat t.weight * power * monomial y t.exponents

end Term

namespace Equations

def termsFrom (names : List String) : Nat → List TypeDef → List Term
  | _, [] => []
  | i, t :: rest => t.constructors.map (Term.ofConstructor names i t.name) ++ termsFrom names (i + 1) rest

def ofSystem (s : Specification) : Equations :=
  ⟨s.names, termsFrom s.names 0 s.types⟩

-- The equations for computing with doubles, whose range every size has to be in.
def inDoubles (s : Specification) : Except Failure Equations :=
  if s.productions.all fun (_, c) => (Binary64.ofInt? c.size).isSome then .ok (ofSystem s) else .error .tooLarge

def order (e : Equations) : Nat := e.names.length

-- The document of a term: the exponents of the types that occur in it, and the size in the precision of doubles.
def termToJson (e : Equations) (t : Term) : Json :=
  let occurring := (e.names.zip t.exponents).filter (·.2 != 0)
  .object [("name", .text t.constructor), ("type", .text t.typeName), ("weight", .float t.weight),
    ("size", .nat (Binary64.roundNat t.size)), ("exponents", .object (occurring.map fun (n, k) => (n, .nat k)))]

def fields (e : Equations) : List (String × Json) :=
  [("types", .array (e.names.map .text)), ("constructors", .array (e.terms.map e.termToJson))]

def toJson (e : Equations) : Json := .object e.fields

variable {α : Type} [Scalar α]

def values (e : Equations) (z : α) (y : List α) : List α :=
  e.terms.map fun t => t.value z y

def byType (e : Equations) (f : Term → α) : List α :=
  (List.range e.order).map fun i => Scalar.sum ((e.terms.filter (·.owner == i)).map f)

def phi (e : Equations) (z : α) (y : List α) : List α :=
  e.byType fun t => t.value z y

def jacobian (e : Equations) (z : α) (y : List α) : List (List α) :=
  (List.range e.order).map fun i =>
    let own := e.terms.filter (·.owner == i)
    (List.range e.order).map fun j =>
      Scalar.sum ((own.filter (·.exponents.getD j 0 != 0)).map fun t => t.derivative j z y)

def slopes (e : Equations) (z : α) (y : List α) : List α :=
  e.byType fun t => t.slope z y

def residual (e : Equations) (z : α) (y : List α) : α :=
  Scalar.norm (List.zipWith (· - ·) (e.phi z y) y)

-- The solution `x` of `(I − J) x = b` for the Jacobian at a point.
def linearized (e : Equations) (z : α) (y b : List α) : Option (List α) :=
  LinearSystem.solve? (LinearSystem.rows (LinearSystem.unitMinus e.order (e.jacobian z y)) b)

-- The derivative of the solution by `z`; `none` if the linear system for it is singular.
def derivative (e : Equations) (z : α) (y : List α) : Option (List α) :=
  e.linearized z y (e.slopes z y)

-- The expected size of every type at a solution: `z · Y' / Y`.
def expectedSizes (e : Equations) (z : α) (y : List α) : Option (List α) :=
  (e.derivative z y).map fun d => List.zipWith (fun d y => z * d / y) d y

-- Newton's method from a vector, in at most so many steps. It ends at the first vector whose residual is at most the
-- precision, in units of its scale. It fails where a value is not finite, where the spectral radius of the Jacobian
-- reaches one, where the Newton system is singular, and at a step clearly below zero.
def newton (e : Equations) (radius : List (List α) → α) (precision z : α) : Nat → List α → Option (List α)
  | 0, _ => none
  | rounds + 1, y =>
    let f := e.phi z y
    let bound := precision * Scalar.scale y
    let j := e.jacobian z y
    let r := List.zipWith (· - ·) f y
    if !f.all Scalar.isFinite then none
    else if !j.all (·.all Scalar.isFinite) || Scalar.le (Scalar.ofNat 1) (radius j) then none
    else if Scalar.le (Scalar.norm r) bound then some y
    else
      match LinearSystem.solve? (LinearSystem.rows (LinearSystem.unitMinus e.order j) r) with
      | none => none
      | some step =>
        if !step.all Scalar.isFinite || step.any (Scalar.lt · (Scalar.negate bound)) then none
        else newton e radius precision z rounds (List.zipWith (fun y s => y + Scalar.max s (Scalar.ofNat 0)) y step)

-- The least solution at `z`, as far as `maxiter` steps of Newton's method from zero reach it.
def solve (e : Equations) (radius : List (List α) → α) (precision : α) (maxiter : Nat) (z : α) : Option (List α) :=
  e.newton radius precision z maxiter (List.replicate e.order (Scalar.ofNat 0))

end Equations

end BoltzmannSampling
