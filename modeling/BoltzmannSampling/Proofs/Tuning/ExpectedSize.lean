import Mathlib
import BoltzmannSampling.Proofs.Derivation.WellFounded
import BoltzmannSampling.Proofs.Tuning.Branching
import BoltzmannSampling.Proofs.Tuning.Jacobian
import BoltzmannSampling.Tuning.ExpectedSize

/-!
Expected sizes in exact arithmetic. Where the equations are solved by positive values and the linear system for the
derivative is regular, the numbers `z · Y' / Y` are the mean sizes of the branching process with the branching
probabilities: each is the mean, over the constructors of the type, of the constructor's own size and the sizes of its
references.
-/

namespace BoltzmannSampling

variable {K : Type} [Field K] [LinearOrder K] {s : Specification} {z : K} {values h : String → K}

namespace Constructor

variable {c : Constructor Symbol}

-- A constructor without atoms has no slope, and no part in the size.
theorem mul_slope (c : Constructor Symbol) (z : K) (values : String → K) :
    z * c.slope z values = c.size * c.term z values := by
  have power : z * (c.size * z ^ (c.size - 1)) = c.size * z ^ c.size := by
    cases c.size
    case zero   => simp
    case succ n =>
      rw [Nat.add_sub_cancel, pow_succ]
      ring
  calc
    _ = Scalar.ofFloat c.weight * (z * (c.size * z ^ (c.size - 1))) * (c.refs.map values).prod := by
      rw [slope]
      ring
    _ = _ := by
      rw [power, term]
      ring

-- Taking a reference away divides by its value.
theorem variation_eq (nonzero : ∀ r ∈ c.refs, values r ≠ 0) (h : String → K) :
    c.variation z values h = c.term z values * (c.refs.map fun r => h r / values r).sum := by
  have factor : (c.refs.map fun r => h r * ((c.refs.erase r).map values).prod) =
      c.refs.map fun r => (c.refs.map values).prod * (h r / values r) :=
    List.map_congr_left fun r hr => by
      rw [← List.prod_map_erase values hr]
      field_simp [nonzero r hr]
  rw [variation, firstOrder, factor, List.sum_map_mul_left, term]
  ring

theorem mul_slope_add_variation (nonzero : ∀ r ∈ c.refs, values r ≠ 0) :
    z * (c.variation z values h + c.slope z values) =
      c.term z values * (c.size + (c.refs.map fun r => z * h r / values r).sum) := by
  have scaled : (c.refs.map fun r => z * h r / values r).sum = z * (c.refs.map fun r => h r / values r).sum := by
    rw [← List.sum_map_mul_left]
    exact congrArg _ <| List.map_congr_left fun r _ => mul_div_assoc ..
  rw [mul_add, mul_slope, variation_eq nonzero, scaled]
  ring

end Constructor

namespace Equations

namespace Solves

theorem of_fixed (resolved : s.Resolved) (positive : ∀ v ∈ s.names.map values, 0 < v)
    (fixed : (ofSystem s).phi z (s.names.map values) = s.names.map values) : Solves s z values where
  positive t ht := positive _ <| List.mem_map_of_mem (Specification.name_mem_names ht)
  sum t ht := by
    rw [phi_ofSystem resolved, Specification.names, List.map_map] at fixed
    exact List.map_inj_left.mp fixed t ht

variable [IsStrictOrderedRing K]

theorem expectedSizes (resolved : s.Resolved) (solves : Solves s z values)
    (regular : IsUnit (1 - jacobianMatrix s z (s.names.map values))) :
    ∃ size : String → K, (ofSystem s).expectedSizes z (s.names.map values) = some (s.names.map size) ∧
      ∀ t ∈ s.types, size t.name =
        (t.constructors.map fun c => share z values t c * (c.size + (c.refs.map size).sum)).sum := by
  have ⟨h, derivative, _, solution⟩ := linearized_ofSystem resolved
    (fun t => (t.constructors.map (·.slope z values)).sum) regular
  rw [← slopes_ofSystem resolved] at derivative
  refine ⟨fun T => z * h T / values T, ?_, fun t ht => ?_⟩
  · rw [Equations.expectedSizes, Equations.derivative, derivative, Option.map_some, List.zipWith_map, List.zipWith_self]
  · have nonzero : ∀ c ∈ t.constructors, ∀ r ∈ c.refs, values r ≠ 0 := by
      intro c hc r hr
      have ⟨u, hu, hn⟩ := Specification.mem_names.mp (resolved.refs t ht c hc r hr)
      exact hn ▸ (solves.positive u hu).ne'
    have terms : t.constructors.map (fun c => z * (c.variation z values h + c.slope z values)) =
        t.constructors.map fun c => c.term z values * ((c.size : K) + (c.refs.map fun r => z * h r / values r).sum) :=
      List.map_congr_left fun c hc => Constructor.mul_slope_add_variation (nonzero c hc)
    calc
      z * h t.name / values t.name
      _ = z * (t.constructors.map fun c => c.variation z values h + c.slope z values).sum / values t.name := by
        rw [solution t ht, ← List.sum_map_add]
      _ = (t.constructors.map fun c =>
            c.term z values * ((c.size : K) + (c.refs.map fun r => z * h r / values r).sum) * (values t.name)⁻¹).sum := by
        rw [← List.sum_map_mul_left, terms, List.sum_map_mul_right, div_eq_mul_inv]
      _ = _ := by
        refine congrArg _ <| List.map_congr_left fun c _ => ?_
        rw [share, div_mul_eq_mul_div, div_eq_mul_inv]

end Solves

end Equations

namespace Tuned

open Specification Equations

variable [IsStrictOrderedRing K] {c : Checked} {y : List K}

theorem expectedSizes_mean {entries : List (Except Json Declaration)} {annotations : List (String × Json)}
    (h : ofDeclarations entries annotations = .ok c.system) (positive : ∀ v ∈ y, 0 < v)
    (fixed : (ofSystem c.system).phi z y = y) (regular : IsUnit (1 - jacobianMatrix c.system z y))
    (report : BranchingFault K → Failure) (mode : Mode) (singularity : K) :
    ∃ (tuned : Tuned K) (p : String → K) (size : String → K),
      ofSolution report c (ofSystem c.system) mode singularity ⟨z, y⟩ = .ok tuned ∧
      (∀ name ∈ c.system.constructorNames, tuned.probability? name = some (p name)) ∧
      (ofSystem c.system).expectedSizes z y = some (c.system.names.map size) ∧
      ∀ t ∈ c.system.types, size t.name =
        (t.constructors.map fun k => p k.name * (k.size + (k.refs.map size).sum)).sum := by
  have resolved := resolved h
  have length : y.length = c.system.names.length := by
    rw [← fixed, phi, byType, List.length_map, List.length_range]
    rfl
  obtain ⟨values, rfl, _⟩ := exists_values resolved.names length
  have solves := Solves.of_fixed resolved positive fixed
  have ⟨tuned, ht, hs, _, hp⟩ := ofSolution_solves resolved solves report mode singularity
  have ⟨size, sizes, mean⟩ := solves.expectedSizes resolved regular
  have shares : ∀ t ∈ c.system.types, ∀ k ∈ t.constructors,
      tuned.probability? k.name = some (Solves.share z values t k) :=
    fun t hm k hk => probability?_map hs resolved hp hm hk
  refine ⟨tuned, fun name => (tuned.probability? name).getD 0, size, ht, fun name hn => ?_, sizes, fun t hm => ?_⟩
  · obtain ⟨⟨t, k⟩, hm, rfl⟩ := List.mem_map.mp hn
    have ⟨hm, hk⟩ := mem_productions.mp hm
    simp only [shares t hm k hk, Option.getD_some]
  · rw [mean t hm]
    refine congrArg _ <| List.map_congr_left fun k hk => ?_
    simp only [shares t hm k hk, Option.getD_some]

-- At a quarter, words have two thirds of an atom on average, and the marks after a letter one third.
theorem words_expectedSizes : ofDeclarations wordEntries [] = .ok .words ∧
    (ofSystem .words).phi (1 / 4 : ℚ) [3 / 2, 4 / 3] = [3 / 2, 4 / 3] ∧
    (ofSystem .words).expectedSizes (1 / 4 : ℚ) [3 / 2, 4 / 3] = some [2 / 3, 1 / 3] ∧
    ∃ (tuned : Tuned ℚ) (p : String → ℚ),
      (∀ name ∈ Specification.words.constructorNames, tuned.probability? name = some (p name)) ∧
      2 / 3 = p "More" * (1 + (1 / 3 + 2 / 3)) := by
  have fixed : (ofSystem .words).phi (1 / 4 : ℚ) [3 / 2, 4 / 3] = [3 / 2, 4 / 3] := by decide +kernel
  have jacobian : (ofSystem .words).jacobian (1 / 4 : ℚ) [3 / 2, 4 / 3] = [[1 / 3, 3 / 8], [0, 1 / 4]] := by
    decide +kernel
  have regular : IsUnit (1 - jacobianMatrix .words (1 / 4 : ℚ) [3 / 2, 4 / 3]) := by
    rw [Matrix.isUnit_iff_isUnit_det, isUnit_iff_ne_zero, jacobianMatrix, jacobian]
    decide +kernel
  have computed : (ofSystem .words).expectedSizes (1 / 4 : ℚ) [3 / 2, 4 / 3] = some [2 / 3, 1 / 3] := by decide +kernel
  have ⟨tuned, p, size, _, hp, sizes, mean⟩ := @expectedSizes_mean ℚ _ _ (1 / 4) _ ⟨.words, .rational, []⟩
    [3 / 2, 4 / 3] wordEntries [] rfl (by norm_num) fixed regular (fun _ => .absent) .cumulative (1 / 2)
  have word : size "Word" = 2 / 3 ∧ size "Seq(@)" = 1 / 3 := by
    have values : [size "Word", size "Seq(@)"] = [2 / 3, 1 / 3] := Option.some.inj (sizes.symm.trans computed)
    simpa using values
  have sum : size "Word" = (p "More" * ((1 : Nat) + (size "Seq(@)" + (size "Word" + 0)))) +
      (p "Stop" * ((0 : Nat) + 0) + 0) := mean _ List.mem_cons_self
  rw [word.1, word.2] at sum
  refine ⟨rfl, fixed, computed, tuned, p, hp, ?_⟩
  simpa using sum

end Tuned

end BoltzmannSampling
