import Mathlib
import BoltzmannSampling.Proofs.Numeric.Nilpotent

/-!
Matrices of a spectral radius below one. Their powers tend to zero. So if no entry of `M` is negative, what `M` does not
enlarge is not negative: `M x ≤ x` gives `0 ≤ x`. In particular `I − M` is invertible.
-/

namespace BoltzmannSampling

namespace LinearSystem

open Filter Topology Matrix

variable {n : Nat}

section Complex

variable {a : Matrix (Fin n) (Fin n) ℂ}

theorem bddAbove_spectrum (a : Matrix (Fin n) (Fin n) ℂ) : BddAbove (norm '' spectrum ℂ a) := by
  let _ := Matrix.linftyOpNormedRing (n := Fin n) (α := ℂ)
  let _ := Matrix.linftyOpNormedAlgebra (n := Fin n) (R := ℂ) (α := ℂ)
  have bounded : Bornology.IsBounded (spectrum ℂ a) := spectrum.isBounded a
  have ⟨C, bound⟩ := isBounded_iff_forall_norm_le.mp bounded
  exact ⟨C, Set.forall_mem_image.mpr bound⟩

-- By Gelfand's formula: the norms of the powers are at most those of a number below one in the end.
theorem tendsto_pow_entry (h : ∀ k ∈ spectrum ℂ a, ‖k‖ < 1) (i j : Fin n) :
    Tendsto (fun k => (a ^ k) i j) atTop (𝓝 0) := by
  let _ := Matrix.linftyOpNormedRing (n := Fin n) (α := ℂ)
  let _ := Matrix.linftyOpNormedAlgebra (n := Fin n) (R := ℂ) (α := ℂ)
  have : CompleteSpace (Matrix (Fin n) (Fin n) ℂ) := FiniteDimensional.complete ℂ _
  have : Nonempty (Fin n) := ⟨i⟩
  have radius := spectrum.spectralRadius_lt_of_forall_lt a (r := 1) h
  have ⟨r, above, below⟩ := ENNReal.lt_iff_exists_nnreal_btwn.mp radius
  have roots := (spectrum.pow_nnnorm_pow_one_div_tendsto_nhds_spectralRadius a).eventually_lt_const above
  have bound : ∀ᶠ k in atTop, ‖a ^ k‖ ≤ (r : ℝ) ^ k := by
    filter_upwards [roots, eventually_ne_atTop 0] with k root nonzero
    have := ENNReal.pow_le_pow_left root.le (n := k)
    have cancel : 1 / (k : ℝ) * k = 1 := one_div_mul_cancel (Nat.cast_ne_zero.mpr nonzero)
    rw [← ENNReal.rpow_natCast, ← ENNReal.rpow_mul, cancel, ENNReal.rpow_one] at this
    exact_mod_cast this
  have zero : Tendsto (fun k => a ^ k) atTop (𝓝 0) :=
    squeeze_zero_norm' bound <| tendsto_pow_atTop_nhds_zero_of_lt_one r.coe_nonneg (ENNReal.coe_lt_coe.mp below)
  exact (LinearMap.continuous_of_finiteDimensional (Matrix.entryLinearMap ℂ ℂ i j)).tendsto' 0 0 rfl |>.comp zero

end Complex

theorem tendsto_pow_of_radius {m : List (List ℝ)} (length : m.length = n) (h : radius m < 1) (i j : Fin n) :
    Tendsto (fun k => (matrix n m ^ k) i j) atTop (𝓝 0) := by
  subst length
  have inside : ∀ k ∈ spectrum ℂ ((matrix m.length m).map (algebraMap ℝ ℂ)), ‖k‖ < 1 := fun k hk =>
    (le_csSup (bddAbove_spectrum _) (Set.mem_image_of_mem _ hk)).trans_lt h
  have power (k : Nat) : ((matrix m.length m).map (algebraMap ℝ ℂ) ^ k) i j = ((matrix m.length m ^ k) i j : ℝ) :=
    congrFun₂ (map_pow (algebraMap ℝ ℂ).mapMatrix (matrix m.length m) k).symm i j
  have entries := tendsto_pow_entry inside i j
  simp only [power] at entries
  exact (Complex.continuous_re.tendsto 0).comp entries

variable {M : Matrix (Fin n) (Fin n) ℝ} {x : Fin n → ℝ}

theorem mulVec_mono (entries : ∀ i j, 0 ≤ M i j) {x y : Fin n → ℝ} (h : x ≤ y) : M *ᵥ x ≤ M *ᵥ y := fun i =>
  Finset.sum_le_sum (s := .univ) fun j _ => mul_le_mul_of_nonneg_left (h j) (entries i j)

theorem nonneg_of_mulVec_le (entries : ∀ i j, 0 ≤ M i j)
    (vanish : ∀ i j, Tendsto (fun k => (M ^ k) i j) atTop (𝓝 0)) (h : M *ᵥ x ≤ x) : 0 ≤ x := by
  have powers (k : Nat) : (M ^ k) *ᵥ x ≤ x := by
    induction k
    case zero      => rw [pow_zero, one_mulVec]
    case succ k hi => exact (pow_succ' M k ▸ mulVec_mulVec x M (M ^ k) ▸ mulVec_mono entries hi).trans h
  intro i
  have limit : Tendsto (fun k => ((M ^ k) *ᵥ x) i) atTop (𝓝 (∑ j, 0 * x j)) :=
    tendsto_finsetSum _ fun j _ => (vanish i j).mul_const (x j)
  simp only [zero_mul, Finset.sum_const_zero] at limit
  exact le_of_tendsto' limit fun k => powers k i

theorem isUnit_one_sub (entries : ∀ i j, 0 ≤ M i j) (vanish : ∀ i j, Tendsto (fun k => (M ^ k) i j) atTop (𝓝 0)) :
    IsUnit (1 - M) := by
  refine mulVec_injective_iff_isUnit.mp <| (injective_iff_map_eq_zero (mulVecLin (1 - M))).mpr fun x hx => ?_
  have fixed : M *ᵥ x = x := by
    have : (1 - M) *ᵥ x = 0 := hx
    rw [sub_mulVec, one_mulVec, sub_eq_zero] at this
    exact this.symm
  have below : 0 ≤ -x := nonneg_of_mulVec_le entries vanish (by rw [mulVec_neg, fixed])
  exact le_antisymm (neg_nonneg.mp below) (nonneg_of_mulVec_le entries vanish fixed.le)

end LinearSystem

end BoltzmannSampling
