import Mathlib
import BoltzmannSampling.Proofs.Derivation.WellFounded
import BoltzmannSampling.Proofs.Numeric.Contraction
import BoltzmannSampling.Proofs.Tuning.Convexity
import BoltzmannSampling.Proofs.Tuning.Rounds

/-!
Newton's method rises. As long as the spectral radius of the Jacobian is below one, what the Jacobian does not enlarge
is not negative. Applied to a step this keeps the vectors at most their images under the right-hand sides, and applied
to the rest of the way to a vector that is at least its image it keeps them below this vector.
-/

namespace BoltzmannSampling

namespace Constructor

variable {K : Type} [Field K] [LinearOrder K] {c : Constructor Symbol} {z : K} {values h g : String → K}

theorem variation_add :
    c.variation z values (fun T => h T + g T) = c.variation z values h + c.variation z values g := by
  simp only [variation_cofactors, mul_add, List.sum_map_add]

end Constructor

namespace Equations

open Specification Matrix

section

variable {K : Type} [Field K] [LinearOrder K]

-- No value is negative or below what the right-hand sides give for it.
structure Above (s : Specification) (z : K) (values : String → K) : Prop where
  nonneg : ∀ T, 0 ≤ values T
  above  : ∀ t ∈ s.types, (t.constructors.map (·.term z values)).sum ≤ values t.name

-- What the vectors of Newton's method are: at most their images, and below all vectors that are at least theirs.
structure Rising (s : Specification) (z : K) (values : String → K) : Prop extends Below s z values where
  outside : ∀ T ∉ s.names, values T = 0
  least   : ∀ top, Above s z top → ∀ T, values T ≤ top T

theorem rising_zero [IsStrictOrderedRing K] {s : Specification} {z : K} (hz : 0 ≤ z) : Rising s z fun _ => 0 where
  toBelow         := below_zero hz
  outside _ _     := rfl
  least _ above T := above.nonneg T

end

variable {s : Specification} {z precision : ℝ} {values h top : String → ℝ} {y : List ℝ} {k : Nat}

-- The guard of Newton's method.
def Inside (s : Specification) (z : ℝ) (values : String → ℝ) : Prop :=
  LinearSystem.radius ((ofSystem s).jacobian z (s.names.map values)) < 1

theorem jacobianMatrix_nonneg (resolved : s.Resolved) (hz : 0 ≤ z) (nonneg : ∀ T, 0 ≤ values T)
    (i j : Fin s.names.length) : 0 ≤ jacobianMatrix s z (s.names.map values) i j := by
  have hi : (i : Nat) < s.types.length := i.isLt.trans_eq (List.length_map _)
  have entries : jacobianMatrix s z (s.names.map values) i j = entry z values s.types[i] s.names[j] := by
    rw [jacobianMatrix, jacobian_ofSystem resolved]
    simp [LinearSystem.matrix, hi]
  rw [entries]
  refine List.sum_nonneg <| List.forall_mem_map.mpr fun c _ => ?_
  exact mul_nonneg (mul_nonneg (mul_nonneg (Nat.cast_nonneg _) (Scalar.ofFloat_pos c.positive).le) (pow_nonneg hz _))
    (Constructor.prod_nonneg nonneg _)

theorem Inside.vanish (inside : Inside s z values) (i j : Fin s.names.length) :
    Filter.Tendsto (fun k => (jacobianMatrix s z (s.names.map values) ^ k) i j) Filter.atTop (nhds 0) :=
  LinearSystem.tendsto_pow_of_radius (by simp [jacobian, order, ofSystem]) inside i j

theorem Inside.regular (inside : Inside s z values) (resolved : s.Resolved) (hz : 0 ≤ z) (nonneg : ∀ T, 0 ≤ values T) :
    IsUnit (1 - jacobianMatrix s z (s.names.map values)) :=
  LinearSystem.isUnit_one_sub (jacobianMatrix_nonneg resolved hz nonneg) inside.vanish

-- What is at least its variation is not negative.
theorem Inside.nonneg (inside : Inside s z values) (resolved : s.Resolved) (hz : 0 ≤ z) (nonneg : ∀ T, 0 ≤ values T)
    (le : ∀ t ∈ s.types, (t.constructors.map (·.variation z values h)).sum ≤ h t.name) : ∀ T ∈ s.names, 0 ≤ h T := by
  have le : jacobianMatrix s z (s.names.map values) *ᵥ LinearSystem.vector s.names.length (s.names.map h) ≤
      LinearSystem.vector s.names.length (s.names.map h) := by
    rintro ⟨i, hn⟩
    have hi : i < s.types.length := hn.trans_eq (List.length_map _)
    rw [mulVec_jacobianMatrix resolved z values h hi hn]
    simpa [LinearSystem.vector, Specification.names, hi] using le _ (List.getElem_mem hi)
  have rows := LinearSystem.nonneg_of_mulVec_le (jacobianMatrix_nonneg resolved hz nonneg) inside.vanish le
  intro T hT
  obtain ⟨i, hi, rfl⟩ := List.getElem_of_mem hT
  simpa [LinearSystem.vector, hi] using rows ⟨i, hi⟩

theorem IsStep.nonneg_of_inside (step : IsStep s z values h) (inside : Inside s z values) (resolved : s.Resolved)
    (hz : 0 ≤ z) (old : Below s z values) (outside : ∀ T ∉ s.names, h T = 0) (T : String) : 0 ≤ h T := by
  by_cases hT : T ∈ s.names
  case neg => exact (outside T hT).ge
  case pos =>
    refine inside.nonneg resolved hz old.nonneg (fun t ht => ?_) T hT
    rw [step t ht]
    exact le_add_of_nonneg_right (sub_nonneg.mpr (old.below t ht))

-- By convexity the way to a vector above is at least its variation and the residual, of which the step has no more.
theorem IsStep.le_of_above (step : IsStep s z values h) (inside : Inside s z values) (resolved : s.Resolved)
    (hz : 0 ≤ z) (old : Below s z values) (outside : ∀ T ∉ s.names, h T = 0) (above : Above s z top)
    (le : ∀ T, values T ≤ top T) (T : String) : values T + h T ≤ top T := by
  let rest (T : String) : ℝ := top T - values T - h T
  have way (T : String) : values T + (h T + rest T) = top T := by ring
  have convex (c : Constructor Symbol) :
      c.term z values + (c.variation z values h + c.variation z values rest) ≤ c.term z top := by
    have up (T : String) : 0 ≤ h T + rest T := by linarith [le T, way T]
    have := Constructor.term_add_variation_le (c := c) hz old.nonneg up
    rwa [Constructor.variation_add, funext way] at this
  have rest_nonneg : ∀ T ∈ s.names, 0 ≤ rest T := by
    refine inside.nonneg resolved hz old.nonneg fun t ht => ?_
    have sums := List.sum_le_sum fun c (_ : c ∈ t.constructors) => convex c
    rw [List.sum_map_add, List.sum_map_add] at sums
    linarith [above.above t ht, step t ht, way t.name]
  by_cases hT : T ∈ s.names
  case pos => linarith [rest_nonneg T hT, way T]
  case neg => exact (congrArg (values T + ·) (outside T hT)).trans (add_zero _) |>.trans_le (le T)

theorem Rising.step (old : Rising s z values) (inside : Inside s z values) (resolved : s.Resolved) (hz : 0 ≤ z) :
    ∃ h : String → ℝ, (ofSystem s).step? z (s.names.map values) = some (s.names.map h) ∧ IsStep s z values h ∧
      (∀ T, 0 ≤ h T) ∧ Rising s z fun T => values T + h T := by
  have ⟨h, taken, outside, step⟩ := step?_ofSystem resolved (inside.regular resolved hz old.nonneg)
  have up := step.nonneg_of_inside inside resolved hz old.toBelow outside
  exact ⟨h, taken, step, up,
    { toBelow       := old.toBelow.advance hz step up
      outside T hT  := (congrArg₂ (· + ·) (old.outside T hT) (outside T hT)).trans (add_zero 0)
      least _ above := step.le_of_above inside resolved hz old.toBelow outside above (old.least _ above) }⟩

-- A round that goes on has passed the guard and has added a step.
theorem Rising.goesOn (rising : Rising s z values) (resolved : s.Resolved) (hz : 0 ≤ z)
    (goes : (ofSystem s).round LinearSystem.radius precision z (s.names.map values) = .goesOn y) :
    Inside s z values ∧ ∃ h : String → ℝ, y = s.names.map (fun T => values T + h T) ∧ IsStep s z values h ∧
      (∀ T, 0 ≤ h T) ∧ Rising s z fun T => values T + h T := by
  have ⟨inside, step, taken, next⟩ := round_goesOn goes
  have ⟨h, taken', isStep, up, rising⟩ := rising.step inside resolved hz
  obtain rfl := Option.some.inj (taken.symm.trans taken')
  exact ⟨inside, h, next.trans (advance_map up), isStep, up, rising⟩

theorem replicate_order : List.replicate (ofSystem s).order (Scalar.ofNat 0 : ℝ) = s.names.map fun _ => 0 := by
  simp [ofSystem, order]

theorem rising_of_reached (resolved : s.Resolved) (hz : 0 ≤ z)
    (h : (ofSystem s).reached? LinearSystem.radius precision z k = some y) :
    ∃ values : String → ℝ, y = s.names.map values ∧ Rising s z values := by
  induction k generalizing y
  case zero      => exact ⟨fun _ => 0, (Option.some.inj h).symm.trans replicate_order, rising_zero hz⟩
  case succ k hi =>
    have ⟨x, hx, goes⟩ := reached?_succ.mp h
    obtain ⟨values, rfl, rising⟩ := hi hx
    have ⟨_, _, next, _, _, rising⟩ := rising.goesOn resolved hz goes
    exact ⟨_, next, rising⟩

-- The same vectors as lists in the order of the table.
theorem forall₂_map {α : Type} {names : List α} {f g : α → ℝ} :
    List.Forall₂ (· ≤ ·) (names.map f) (names.map g) ↔ ∀ T ∈ names, f T ≤ g T := by
  rw [List.forall₂_map_left_iff, List.forall₂_map_right_iff, List.forall₂_same]

theorem Below.forall₂ (below : Below s z values) (resolved : s.Resolved) :
    List.Forall₂ (· ≤ ·) (s.names.map values) ((ofSystem s).phi z (s.names.map values)) := by
  rw [phi_ofSystem resolved, Specification.names, List.map_map, forall₂_map]
  exact below.below

theorem exists_above (resolved : s.Resolved) (nonneg : ∀ v ∈ y, 0 ≤ v)
    (le : List.Forall₂ (· ≤ ·) ((ofSystem s).phi z y) y) :
    ∃ top : String → ℝ, y = s.names.map top ∧ Above s z top := by
  have length : y.length = s.names.length := by
    rw [← le.length_eq, phi, byType, List.length_map, List.length_range]
    rfl
  obtain ⟨top, rfl, outside⟩ := exists_values resolved.names length
  rw [phi_ofSystem resolved, Specification.names, List.map_map, forall₂_map] at le
  refine ⟨top, rfl, fun T => ?_, le⟩
  by_cases hT : T ∈ s.names
  case pos => exact nonneg _ (List.mem_map_of_mem hT)
  case neg => exact (outside T hT).ge

theorem IsStep.linear (step : IsStep s z values h) (resolved : s.Resolved) :
    (1 - jacobianMatrix s z (s.names.map values)) *ᵥ LinearSystem.vector s.names.length (s.names.map h) =
      LinearSystem.vector s.names.length ((ofSystem s).phi z (s.names.map values)) -
        LinearSystem.vector s.names.length (s.names.map values) := by
  rw [sub_mulVec, one_mulVec]
  ext ⟨i, hn⟩
  have hi : i < s.types.length := hn.trans_eq (List.length_map _)
  rw [Pi.sub_apply, Pi.sub_apply, mulVec_jacobianMatrix resolved z values h hi hn, phi_ofSystem resolved]
  have taken := step _ (List.getElem_mem hi)
  simp only [LinearSystem.vector, Specification.names, List.getD_eq_getElem?_getD, List.getElem?_map,
    List.getElem?_eq_getElem hi, Option.map_some, Option.getD_some]
  linarith

-- The iterates rise to the least solution: each is at most its image, the steps are not negative, so that nothing is
-- cut off of them and they end nothing, and no step leads past a vector that is at least its image.
theorem solve_monotone {entries : List (Except Json Declaration)} {annotations : List (String × Json)}
    (declared : ofDeclarations entries annotations = .ok s) (hz : 0 ≤ z) (precision : ℝ) :
    (∀ k y, (ofSystem s).reached? LinearSystem.radius precision z k = some y →
      LinearSystem.radius ((ofSystem s).jacobian z y) < 1 →
      (∀ v ∈ y, 0 ≤ v) ∧ List.Forall₂ (· ≤ ·) y ((ofSystem s).phi z y) ∧
      ∃ step, (ofSystem s).step? z y = some step ∧ IsUnit (1 - jacobianMatrix s z y) ∧
        (1 - jacobianMatrix s z y) *ᵥ LinearSystem.vector s.names.length step =
          LinearSystem.vector s.names.length ((ofSystem s).phi z y) - LinearSystem.vector s.names.length y ∧
        (∀ v ∈ step, 0 ≤ v) ∧ advance y step = List.zipWith (· + ·) y step ∧
        (0 ≤ precision → (ofSystem s).round LinearSystem.radius precision z y =
          if (ofSystem s).residual z y ≤ precision * Scalar.scale y then .ends (some y)
          else .goesOn (List.zipWith (· + ·) y step)) ∧
        ∀ top, (∀ v ∈ top, 0 ≤ v) → List.Forall₂ (· ≤ ·) ((ofSystem s).phi z top) top →
          List.Forall₂ (· ≤ ·) (List.zipWith (· + ·) y step) top) ∧
    ∀ maxiter y, (ofSystem s).solve LinearSystem.radius precision maxiter z = some y →
      (ofSystem s).residual z y ≤ precision * Scalar.scale y ∧ LinearSystem.radius ((ofSystem s).jacobian z y) < 1 ∧
      ∀ top, (∀ v ∈ top, 0 ≤ v) → (ofSystem s).phi z top = top → List.Forall₂ (· ≤ ·) y top := by
  have resolved := resolved declared
  refine ⟨fun k y reached inside => ?_, fun maxiter y found => ?_⟩
  · obtain ⟨values, rfl, rising⟩ := rising_of_reached resolved hz reached
    have inside : Inside s z values := inside
    have ⟨h, taken, step, up, next⟩ := rising.step inside resolved hz
    have sum : List.zipWith (· + ·) (s.names.map values) (s.names.map h) = s.names.map fun T => values T + h T := by
      rw [List.zipWith_map, List.zipWith_self]
    have nonneg : ∀ v ∈ s.names.map h, 0 ≤ v := List.forall_mem_map.mpr fun T _ => up T
    refine ⟨List.forall_mem_map.mpr fun T _ => rising.nonneg T, rising.forall₂ resolved, _, taken,
      inside.regular resolved hz rising.nonneg, step.linear resolved, nonneg, (advance_map up).trans sum.symm,
      fun precise => ?_, fun top positive le => ?_⟩
    · rw [round_of_step inside precise taken nonneg, advance_map up, sum]
    · obtain ⟨top, rfl, above⟩ := exists_above resolved positive le
      rw [sum, forall₂_map]
      exact fun T _ => next.least top above T
  · have ⟨k, x, reached, ends⟩ := solve_ends found
    obtain ⟨rfl, inside, small⟩ := round_found ends
    refine ⟨small, inside, fun top positive fixed => ?_⟩
    obtain ⟨values, rfl, rising⟩ := rising_of_reached resolved hz reached
    have le : List.Forall₂ (· ≤ ·) ((ofSystem s).phi z top) top := by
      rw [fixed]
      exact List.forall₂_same.mpr fun _ _ => le_rfl
    obtain ⟨top, rfl, above⟩ := exists_above resolved positive le
    exact forall₂_map.mpr fun T _ => rising.least top above T

theorem words_phi (z w m : ℝ) : (ofSystem words).phi z [w, m] = [z * (m * w) + 1, 1 + z * m] := by
  let values (T : String) : ℝ := if T = "Word" then w else m
  have unit : (Scalar.ofFloat 1 : ℝ) = 1 := by
    have : (Binary64.ofFloat? 1).elim 0 Binary64.toRat = 1 := by decide +kernel
    simp [Scalar.ofFloat, this]
  have declared : ofDeclarations wordEntries [] = .ok words := rfl
  have vector : words.names.map values = [w, m] := rfl
  have sums : (ofSystem words).phi z (words.names.map values) =
      [[Scalar.ofFloat 1 * z ^ 1 * [m, w].prod, Scalar.ofFloat 1 * z ^ 0 * [].prod].sum,
        [Scalar.ofFloat 1 * z ^ 0 * [].prod, Scalar.ofFloat 1 * z ^ 1 * [m].prod].sum] :=
    phi_ofSystem (resolved declared)
  rw [← vector, sums, unit]
  simp

-- At a quarter, words come to three halves and marks to four thirds; no iterate is above.
theorem words_rise : ofDeclarations wordEntries [] = .ok words ∧ (0 : ℝ) ≤ 1 / 4 ∧
    (ofSystem words).phi (1 / 4 : ℝ) [3 / 2, 4 / 3] = [3 / 2, 4 / 3] ∧
    ∀ maxiter y, (ofSystem words).solve LinearSystem.radius (1 / 1000) maxiter (1 / 4) = some y →
      List.Forall₂ (· ≤ ·) y [3 / 2, 4 / 3] := by
  have fixed : (ofSystem words).phi (1 / 4 : ℝ) [3 / 2, 4 / 3] = [3 / 2, 4 / 3] := by
    rw [words_phi]
    norm_num
  have ⟨_, found⟩ := @solve_monotone words (1 / 4) wordEntries [] rfl (by norm_num) (1 / 1000)
  exact ⟨rfl, by norm_num, fixed, fun maxiter y h => (found maxiter y h).2.2 _ (by norm_num) fixed⟩

end Equations

end BoltzmannSampling
