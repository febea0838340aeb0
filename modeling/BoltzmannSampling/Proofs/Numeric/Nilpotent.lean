import Mathlib
import BoltzmannSampling.Proofs.Numeric.LinearSystem

/-!
Nilpotent matrices. A matrix whose entries lead from every place to places of less rank only is nilpotent, and the
spectral radius of a nilpotent matrix is zero.
-/

namespace BoltzmannSampling

namespace LinearSystem

-- Each factor of a power uses up some rank.
theorem rank_of_pow_ne_zero {K : Type} [Field K] {n k : Nat} {m : Matrix (Fin n) (Fin n) K} {rank : Fin n → Nat}
    (descends : ∀ i j, m i j ≠ 0 → rank j < rank i) {i j : Fin n} (h : (m ^ k) i j ≠ 0) : rank j + k ≤ rank i := by
  induction k generalizing j
  case zero =>
    by_cases he : i = j
    case pos => exact he ▸ le_rfl
    case neg => exact absurd (Matrix.one_apply_ne he) h
  case succ k hi =>
    rw [pow_succ, Matrix.mul_apply] at h
    have ⟨l, _, hl⟩ := Finset.exists_ne_zero_of_sum_ne_zero h
    have := hi (left_ne_zero_of_mul hl)
    have := descends l j (right_ne_zero_of_mul hl)
    omega

theorem isNilpotent_of_rank {K : Type} [Field K] {n : Nat} {m : Matrix (Fin n) (Fin n) K} {rank : Fin n → Nat}
    (descends : ∀ i j, m i j ≠ 0 → rank j < rank i) (bounded : ∀ i, rank i < n) : IsNilpotent m := by
  refine ⟨n, Matrix.ext fun i j => ?_⟩
  by_contra h
  have := rank_of_pow_ne_zero descends h
  have := bounded i
  omega

-- The greatest absolute value of a complex eigenvalue.
noncomputable def radius (m : List (List ℝ)) : ℝ :=
  sSup (norm '' spectrum ℂ ((matrix m.length m).map (algebraMap ℝ ℂ)))

theorem eigenvalue_of_isNilpotent {n : Nat} {m : Matrix (Fin n) (Fin n) ℂ} (h : IsNilpotent m) {k : ℂ}
    (hk : k ∈ spectrum ℂ m) : k = 0 := by
  by_contra nonzero
  refine hk ?_
  have scalar : IsUnit (algebraMap ℂ (Matrix (Fin n) (Fin n) ℂ) k) := IsUnit.map _ (Ne.isUnit nonzero)
  rw [spectrum.mem_resolventSet_iff, sub_eq_add_neg]
  exact h.neg.isUnit_add_left_of_commute scalar (Algebra.commutes k (-m)).symm

theorem radius_of_isNilpotent {n : Nat} {m : List (List ℝ)} (length : m.length = n) (h : IsNilpotent (matrix n m)) :
    radius m = 0 := by
  subst length
  have mapped : IsNilpotent ((matrix m.length m).map (algebraMap ℝ ℂ)) := h.map (algebraMap ℝ ℂ).mapMatrix
  have zero : ∀ x ∈ norm '' spectrum ℂ ((matrix m.length m).map (algebraMap ℝ ℂ)), x = 0 := by
    rintro _ ⟨k, hk, rfl⟩
    rw [eigenvalue_of_isNilpotent mapped hk, norm_zero]
  exact le_antisymm (Real.sSup_nonpos fun x hx => (zero x hx).le) (Real.sSup_nonneg fun x hx => (zero x hx).ge)

end LinearSystem

end BoltzmannSampling
