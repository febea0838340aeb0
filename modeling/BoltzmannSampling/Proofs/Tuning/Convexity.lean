import Mathlib
import BoltzmannSampling.Proofs.Tuning.Jacobian
import BoltzmannSampling.Proofs.Tuning.Newton

/-!
The terms are convex: where no value is negative, a term grows by its variation at least. Hence a vector that is at
most its image under the right-hand sides remains so when the step of Newton's method, if not negative, is added.
-/

namespace BoltzmannSampling

variable {K : Type} [Field K] [LinearOrder K] {s : Specification} {z : K} {values h : String → K}

namespace Constructor

variable {c : Constructor Symbol}

-- The factor of a reference in the variation.
def cofactor (c : Constructor Symbol) (z : K) (values : String → K) (r : String) : K :=
  Scalar.ofFloat c.weight * z ^ c.size * ((c.refs.erase r).map values).prod

theorem variation_cofactors : c.variation z values h = (c.refs.map fun r => c.cofactor z values r * h r).sum := by
  rw [variation, firstOrder, ← List.sum_map_mul_left]
  refine congrArg _ <| List.map_congr_left fun r _ => ?_
  rw [cofactor, mul_assoc _ _ (h r), mul_comm (h r)]

theorem variation_eq_zero (still : ∀ r ∈ c.refs, c.cofactor z values r ≠ 0 → h r = 0) : c.variation z values h = 0 := by
  rw [variation_cofactors]
  refine List.sum_eq_zero <| List.forall_mem_map.mpr fun r hr => ?_
  by_cases zero : c.cofactor z values r = 0
  case pos => rw [zero, zero_mul]
  case neg => rw [still r hr zero, mul_zero]

theorem firstOrder_cons (q : String) (refs : List String) : firstOrder values h (q :: refs) =
    h q * (refs.map values).prod + values q * firstOrder values h refs := by
  have erased : ∀ r ∈ refs, (((q :: refs).erase r).map values).prod = values q * ((refs.erase r).map values).prod := by
    intro r hr
    by_cases he : q = r
    case pos => rw [he, List.erase_cons_head, List.prod_map_erase values hr]
    case neg => rw [List.erase_cons_tail (by simpa using he), List.map_cons, List.prod_cons]
  have others : (refs.map fun r => h r * (((q :: refs).erase r).map values).prod) =
      refs.map fun r => values q * (h r * ((refs.erase r).map values).prod) :=
    List.map_congr_left fun r hr => by rw [erased r hr, mul_left_comm]
  rw [firstOrder, List.map_cons, List.sum_cons, List.erase_cons_head, others, List.sum_map_mul_left, firstOrder]

variable [IsStrictOrderedRing K]

theorem prod_nonneg (nonneg : ∀ T, 0 ≤ values T) (refs : List String) : 0 ≤ (refs.map values).prod :=
  List.prod_nonneg <| List.forall_mem_map.mpr fun r _ => nonneg r

theorem cofactor_nonneg (hz : 0 ≤ z) (nonneg : ∀ T, 0 ≤ values T) (r : String) : 0 ≤ c.cofactor z values r :=
  mul_nonneg (mul_nonneg (Scalar.ofFloat_pos c.positive).le (pow_nonneg hz _)) (prod_nonneg nonneg _)

theorem variation_nonneg (hz : 0 ≤ z) (nonneg : ∀ T, 0 ≤ values T)
    (up : ∀ r ∈ c.refs, c.cofactor z values r ≠ 0 → 0 ≤ h r) : 0 ≤ c.variation z values h := by
  rw [variation_cofactors]
  refine List.sum_nonneg <| List.forall_mem_map.mpr fun r hr => ?_
  by_cases zero : c.cofactor z values r = 0
  case pos => rw [zero, zero_mul]
  case neg => exact mul_nonneg (cofactor_nonneg hz nonneg r) (up r hr zero)

theorem firstOrder_nonneg (nonneg : ∀ T, 0 ≤ values T) (up : ∀ T, 0 ≤ h T) (refs : List String) :
    0 ≤ firstOrder values h refs :=
  List.sum_nonneg <| List.forall_mem_map.mpr fun r _ => mul_nonneg (up r) (prod_nonneg nonneg _)

theorem prod_add_firstOrder_le (nonneg : ∀ T, 0 ≤ values T) (up : ∀ T, 0 ≤ h T) (refs : List String) :
    (refs.map values).prod + firstOrder values h refs ≤ (refs.map fun r => values r + h r).prod := by
  induction refs
  case nil => simp [firstOrder]
  case cons q refs hi =>
    have order := firstOrder_nonneg nonneg up refs
    calc
      _ = (values q + h q) * (refs.map values).prod + values q * firstOrder values h refs := by
        rw [firstOrder_cons, List.map_cons, List.prod_cons]
        ring
      _ ≤ (values q + h q) * ((refs.map values).prod + firstOrder values h refs) := by
        rw [mul_add]
        gcongr
        exact le_add_of_nonneg_right (up q)
      _ ≤ _ := by
        rw [List.map_cons, List.prod_cons]
        exact mul_le_mul_of_nonneg_left hi (add_nonneg (nonneg q) (up q))

theorem term_add_variation_le (hz : 0 ≤ z) (nonneg : ∀ T, 0 ≤ values T) (up : ∀ T, 0 ≤ h T) :
    c.term z values + c.variation z values h ≤ c.term z fun T => values T + h T := by
  rw [term, variation, term, ← mul_add]
  exact mul_le_mul_of_nonneg_left (prod_add_firstOrder_le nonneg up c.refs)
    (mul_nonneg (Scalar.ofFloat_pos c.positive).le (pow_nonneg hz _))

end Constructor

namespace Equations

-- No value is negative or above what the right-hand sides give for it.
structure Below (s : Specification) (z : K) (values : String → K) : Prop where
  nonneg : ∀ T, 0 ≤ values T
  below  : ∀ t ∈ s.types, values t.name ≤ (t.constructors.map (·.term z values)).sum

-- The step of Newton's method: to first order it solves the equations.
def IsStep (s : Specification) (z : K) (values h : String → K) : Prop :=
  ∀ t ∈ s.types, h t.name = (t.constructors.map (·.variation z values h)).sum +
    ((t.constructors.map (·.term z values)).sum - values t.name)

theorem advance_map {names : List String} (up : ∀ T, 0 ≤ h T) :
    advance (names.map values) (names.map h) = names.map fun T => values T + h T := by
  rw [advance, List.zipWith_map, List.zipWith_self]
  exact List.map_congr_left fun T _ => by rw [Scalar.max_eq, Scalar.ofNat_eq, Nat.cast_zero, max_eq_left (up T)]

variable [IsStrictOrderedRing K]

theorem step?_ofSystem (resolved : s.Resolved) (regular : IsUnit (1 - jacobianMatrix s z (s.names.map values))) :
    ∃ h : String → K, (ofSystem s).step? z (s.names.map values) = some (s.names.map h) ∧ (∀ T ∉ s.names, h T = 0) ∧
      IsStep s z values h := by
  have residual : List.zipWith (· - ·) ((ofSystem s).phi z (s.names.map values)) (s.names.map values) =
      s.types.map fun t => (t.constructors.map (·.term z values)).sum - values t.name := by
    rw [phi_ofSystem resolved, Specification.names, List.map_map, List.zipWith_map, List.zipWith_self]
    rfl
  rw [step?, residual]
  exact linearized_ofSystem resolved _ regular

theorem below_zero (hz : 0 ≤ z) : Below s z fun _ => 0 where
  nonneg _  := le_rfl
  below _ _ := List.sum_nonneg <| List.forall_mem_map.mpr fun c _ =>
    mul_nonneg (mul_nonneg (Scalar.ofFloat_pos c.positive).le (pow_nonneg hz _)) (Constructor.prod_nonneg (fun _ => le_rfl) _)

theorem Below.advance (hz : 0 ≤ z) (old : Below s z values) (step : IsStep s z values h) (up : ∀ T, 0 ≤ h T) :
    Below s z fun T => values T + h T where
  nonneg T   := add_nonneg (old.nonneg T) (up T)
  below t ht :=
    calc
      values t.name + h t.name = (t.constructors.map fun c => c.term z values + c.variation z values h).sum := by
        rw [step t ht, List.sum_map_add]
        ring
      _ ≤ _ := List.sum_le_sum fun c _ => Constructor.term_add_variation_le hz old.nonneg up

end Equations

end BoltzmannSampling
