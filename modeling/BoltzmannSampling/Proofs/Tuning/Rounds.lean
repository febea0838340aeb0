import Mathlib
import BoltzmannSampling.Proofs.Tuning.Newton

/-!
Newton's method as a loop. One round ends the loop with a result or goes on with another vector. The vectors that the
rounds lead to from zero do not depend on how many rounds are allowed, and the result is that of the first round that
ends, if so many are allowed.
-/

namespace BoltzmannSampling

namespace Equations

section

variable {α : Type} [Scalar α]

-- The vector that a round begins with, after so many rounds from zero that went on.
def reached? (e : Equations) (radius : List (List α) → α) (precision z : α) : Nat → Option (List α)
  | 0     => some (List.replicate e.order (Scalar.ofNat 0))
  | k + 1 => (e.reached? radius precision z k).bind fun y => (e.round radius precision z y).next?

variable {e : Equations} {radius : List (List α) → α} {precision z : α} {y next : List α}
  {result : Option (List α)} {k maxiter : Nat}

theorem reached?_succ : e.reached? radius precision z (k + 1) = some next ↔
    ∃ y, e.reached? radius precision z k = some y ∧ e.round radius precision z y = .goesOn next := by
  have goes (r : Round α) : r.next? = some next ↔ r = .goesOn next := by cases r <;> simp [Round.next?]
  simp [reached?, Option.bind_eq_some_iff, goes]

-- Each round that went on has used up one of those allowed.
theorem solve_reached (rounds : Nat) (h : e.reached? radius precision z k = some y) :
    e.solve radius precision (k + rounds) z = e.newton radius precision z rounds y := by
  induction k generalizing y rounds
  case zero =>
    rw [Nat.zero_add, ← Option.some.inj h]
    rfl
  case succ k hi =>
    have ⟨x, hx, goes⟩ := reached?_succ.mp h
    rw [Nat.add_right_comm, Nat.add_assoc, hi (rounds + 1) hx, newton_round, goes]

theorem solve_of_ends (h : e.reached? radius precision z k = some y)
    (ends : e.round radius precision z y = .ends result) (enough : k < maxiter) :
    e.solve radius precision maxiter z = result := by
  obtain ⟨rounds, rfl⟩ := Nat.exists_eq_add_of_lt enough
  rw [Nat.add_assoc, solve_reached (rounds + 1) h, newton_round, ends]

theorem newton_ends {rounds : Nat} (h : e.reached? radius precision z k = some y)
    (found : e.newton radius precision z rounds y = some next) :
    ∃ k' x, e.reached? radius precision z k' = some x ∧ e.round radius precision z x = .ends (some next) := by
  induction rounds generalizing k y
  case zero           => cases found
  case succ rounds hi =>
    rw [newton_round] at found
    cases hr : e.round radius precision z y <;> rw [hr] at found
    case ends   => exact ⟨k, y, h, found ▸ hr⟩
    case goesOn => exact hi (reached?_succ.mpr ⟨y, h, hr⟩) found

-- A vector that the method returns is the result of a round.
theorem solve_ends (found : e.solve radius precision maxiter z = some y) :
    ∃ k x, e.reached? radius precision z k = some x ∧ e.round radius precision z x = .ends (some y) :=
  newton_ends (k := 0) rfl found

end

variable {K : Type} [Field K] [LinearOrder K]
  {e : Equations} {radius : List (List K) → K} {precision z : K} {y found next : List K}

-- A round that has a vector for its result has that of the guard and the residual.
theorem round_found (h : e.round radius precision z y = .ends (some found)) :
    found = y ∧ radius (e.jacobian z y) < 1 ∧ e.residual z y ≤ precision * Scalar.scale y := by
  rw [round_eq] at h
  split at h
  case isTrue         => cases h
  case isFalse inside =>
    split at h
    case isTrue small =>
      cases h
      exact ⟨rfl, not_le.mp inside, small⟩
    case isFalse      =>
      split at h
      case h_1 => cases h
      case h_2 => split at h <;> cases h

-- A round that goes on has passed the guard and adds the step, as far as it is not negative.
theorem round_goesOn (h : e.round radius precision z y = .goesOn next) :
    radius (e.jacobian z y) < 1 ∧ ∃ step, e.step? z y = some step ∧ next = advance y step := by
  rw [round_eq] at h
  split at h
  case isTrue         => cases h
  case isFalse inside =>
    refine ⟨not_le.mp inside, ?_⟩
    split at h
    case isTrue  => cases h
    case isFalse =>
      split at h
      case h_1            => cases h
      case h_2 step taken =>
        split at h <;> cases h
        exact ⟨step, taken, rfl⟩

end Equations

end BoltzmannSampling
