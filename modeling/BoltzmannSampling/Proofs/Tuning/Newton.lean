import Mathlib
import BoltzmannSampling.Proofs.Numeric.Rational
import BoltzmannSampling.Tuning.Singularity

/-!
Newton's method, round by round, in exact arithmetic. Where no step fails or is negative and the spectral radii stay below one, the
method does nothing but add the steps until the equations are solved within the precision; so it ends by the first
vector that solves them.
-/

namespace BoltzmannSampling

-- How a round of the loop ends: the loop has a result, or goes on with a vector.
inductive Round (α : Type) where
  | ends (result : Option (List α))
  | goesOn (next : List α)

def Round.next? {α : Type} : Round α → Option (List α)
  | ends _   => none
  | goesOn y => some y

namespace Equations

section

variable {α : Type} [Scalar α]

-- The step of Newton's method at a vector.
def step? (e : Equations) (z : α) (y : List α) : Option (List α) :=
  e.linearized z y (List.zipWith (· - ·) (e.phi z y) y)

def advance (y step : List α) : List α := List.zipWith (fun y s => y + Scalar.max s (Scalar.ofNat 0)) y step

def round (e : Equations) (radius : List (List α) → α) (precision z : α) (y : List α) : Round α :=
  let f := e.phi z y
  let bound := precision * Scalar.scale y
  let j := e.jacobian z y
  let r := List.zipWith (· - ·) f y
  if !f.all Scalar.isFinite then .ends none
  else if !j.all (·.all Scalar.isFinite) || Scalar.le (Scalar.ofNat 1) (radius j) then .ends none
  else if Scalar.le (Scalar.norm r) bound then .ends (some y)
  else
    match LinearSystem.solve? (LinearSystem.rows (LinearSystem.unitMinus e.order j) r) with
    | none => .ends none
    | some step =>
      if !step.all Scalar.isFinite || step.any (Scalar.lt · (Scalar.negate bound)) then .ends none
      else .goesOn (List.zipWith (fun y s => y + Scalar.max s (Scalar.ofNat 0)) y step)

-- The vector that so many steps lead to from zero, if none of them fails.
def iterate? (e : Equations) (z : α) : Nat → Option (List α)
  | 0     => some (List.replicate e.order (Scalar.ofNat 0))
  | k + 1 => (e.iterate? z k).bind fun y => (e.step? z y).map (advance y)

variable {e : Equations} {radius : List (List α) → α} {precision z : α} {y : List α}

theorem newton_round (rounds : Nat) : e.newton radius precision z (rounds + 1) y =
    match e.round radius precision z y with
    | .ends result => result
    | .goesOn next => e.newton radius precision z rounds next := by
  simp only [newton, round]
  split
  case isTrue  => rfl
  case isFalse =>
    split
    case isTrue  => rfl
    case isFalse =>
      split
      case isTrue  => rfl
      case isFalse =>
        cases LinearSystem.solve? (LinearSystem.rows (LinearSystem.unitMinus e.order (e.jacobian z y))
          (List.zipWith (· - ·) (e.phi z y) y))
        case none => rfl
        case some => simp only; split <;> rfl

end

variable {K : Type} [Field K] [LinearOrder K]
  {e : Equations} {radius : List (List K) → K} {precision z : K} {y step : List K} {k n rounds : Nat}

-- In exact arithmetic all numbers are finite.
theorem round_eq : e.round radius precision z y =
    if 1 ≤ radius (e.jacobian z y) then .ends none
    else if e.residual z y ≤ precision * Scalar.scale y then .ends (some y)
    else
      match e.step? z y with
      | none => .ends none
      | some step =>
        if ∃ x ∈ step, x < -(precision * Scalar.scale y) then .ends none else .goesOn (advance y step) := by
  have finite (xs : List K) : xs.all Scalar.isFinite = true := List.all_eq_true.mpr fun _ _ => rfl
  have finiteRows : (e.jacobian z y).all (·.all Scalar.isFinite) = true := List.all_eq_true.mpr fun row _ => finite row
  rw [round, step?, linearized]
  simp only [finiteRows, advance, residual]
  simp only [finite, Bool.not_true, Bool.false_eq_true, if_false, Bool.false_or, Scalar.le_eq, Scalar.ofNat_eq,
    Nat.cast_one, Nat.cast_zero, decide_eq_true_eq, Scalar.negate, zero_sub, List.any_eq_true, Scalar.lt_eq]

variable [IsStrictOrderedRing K]

theorem scale_pos (xs : List K) : 0 < Scalar.scale xs := by
  rw [Scalar.scale]
  split
  case isTrue h  => exact one_pos.trans (by simpa using h)
  case isFalse _ => simp

theorem norm_zero (n : Nat) : Scalar.norm (List.replicate n (0 : K)) = 0 := by
  have stays (n : Nat) : (List.replicate n (0 : K)).foldl (fun m x => Scalar.max m (Scalar.abs x)) 0 = 0 := by
    induction n
    case zero      => rfl
    case succ n hi => rwa [List.replicate_succ, List.foldl_cons, Scalar.max_eq, Scalar.abs_eq, abs_zero, max_self]
  simpa [Scalar.norm] using stays n

theorem residual_of_solved (solved : e.phi z y = y) : e.residual z y = 0 := by
  have zero : List.zipWith (· - ·) (e.phi z y) y = List.replicate y.length 0 := by
    rw [solved, List.zipWith_self, ← List.map_const']
    exact List.map_congr_left fun x _ => sub_self x
  rw [residual, zero, norm_zero]

-- No test of a round fires past the guard, if the step is not negative.
theorem round_of_step (inside : radius (e.jacobian z y) < 1) (precise : 0 ≤ precision)
    (taken : e.step? z y = some step) (positive : ∀ x ∈ step, 0 ≤ x) :
    e.round radius precision z y =
      if e.residual z y ≤ precision * Scalar.scale y then .ends (some y) else .goesOn (advance y step) := by
  have bound := neg_nonpos.mpr (mul_nonneg precise (scale_pos y).le)
  have fine : ¬∃ x ∈ step, x < -(precision * Scalar.scale y) :=
    fun ⟨x, hx, hl⟩ => (positive x hx).not_gt (hl.trans_le bound)
  rw [round_eq, if_neg inside.not_ge, taken]
  simp only [if_neg fine]

theorem newton_solved (inside : radius (e.jacobian z y) < 1) (precise : 0 ≤ precision) (solved : e.phi z y = y) :
    e.newton radius precision z (rounds + 1) y = some y := by
  have small := (residual_of_solved solved).trans_le (mul_nonneg precise (scale_pos y).le)
  rw [newton_round, round_eq, if_neg inside.not_ge, if_pos small]

theorem newton_step (rounds : Nat) (inside : radius (e.jacobian z y) < 1) (precise : 0 ≤ precision)
    (taken : e.step? z y = some step) (positive : ∀ x ∈ step, 0 ≤ x) :
    e.newton radius precision z (rounds + 1) y = some y ∨
      e.newton radius precision z (rounds + 1) y = e.newton radius precision z rounds (advance y step) := by
  rw [newton_round, round_of_step inside precise taken positive]
  by_cases small : e.residual z y ≤ precision * Scalar.scale y
  case pos => exact .inl (by rw [if_pos small])
  case neg => exact .inr (by rw [if_neg small])

-- No test of the method fires at a vector from which it takes a step that is not negative.
structure Steady (e : Equations) (radius : List (List K) → K) (z : K) (y : List K) : Prop where
  inside : radius (e.jacobian z y) < 1
  step   : ∃ step, e.step? z y = some step ∧ ∀ x ∈ step, 0 ≤ x

theorem newton_reaches (precise : 0 ≤ precision) (steady : ∀ k y, e.iterate? z k = some y → e.Steady radius z y)
    (solved : ∀ y, e.iterate? z n = some y → e.phi z y = y) (hk : e.iterate? z k = some y) (le : k ≤ n)
    (enough : n < k + rounds) :
    ∃ m ≤ n, ∃ found, e.iterate? z m = some found ∧ e.newton radius precision z rounds y = some found := by
  induction rounds generalizing k y
  case zero => omega
  case succ rounds hi =>
    have ⟨inside, step, taken, positive⟩ := steady k y hk
    by_cases last : k = n
    case pos =>
      subst last
      exact ⟨k, le_rfl, y, hk, newton_solved inside precise (solved y hk)⟩
    case neg =>
      rcases newton_step rounds inside precise taken positive with ends | goes
      · exact ⟨k, le, y, hk, ends⟩
      · have next : e.iterate? z (k + 1) = some (advance y step) := by simp [iterate?, hk, taken]
        rw [goes]
        exact hi next (by omega) (by omega)

theorem solve_reaches (precise : 0 ≤ precision) (steady : ∀ k y, e.iterate? z k = some y → e.Steady radius z y)
    (solved : ∀ y, e.iterate? z n = some y → e.phi z y = y) {maxiter : Nat} (enough : n < maxiter) :
    ∃ m ≤ n, ∃ found, e.iterate? z m = some found ∧ e.solve radius precision maxiter z = some found :=
  newton_reaches (k := 0) precise steady solved rfl n.zero_le (by omega)

end Equations

end BoltzmannSampling
