import Mathlib
import BoltzmannSampling.Proofs.Derivation.WellFounded
import BoltzmannSampling.Proofs.Tuning.Jacobian

/-!
The equations of a system as polynomials. The right-hand side for a type is a polynomial in the parameter and in the
values of the types. In exact arithmetic what is computed at a point are its terms and its value there, and the entries
of the Jacobian and the slopes are the values of its formal partial derivatives, also where coordinates are zero.
-/

namespace BoltzmannSampling

open MvPolynomial

-- The unknowns of the equations.
inductive Unknown where
  | parameter
  | value (typeName : String)
deriving DecidableEq

variable {K : Type} [Field K]

def Unknown.at (z : K) (values : String → K) : Unknown → K
  | parameter => z
  | value T   => values T

variable {z : K} {values : String → K} {T : String}

namespace Constructor

noncomputable def references (K : Type) [Field K] (refs : List String) : MvPolynomial Unknown K :=
  (refs.map fun r => X (.value r)).prod

theorem references_cons (q : String) (refs : List String) :
    references K (q :: refs) = X (.value q) * references K refs := by
  rw [references, List.map_cons, List.prod_cons, references]

theorem eval_references (refs : List String) :
    eval (Unknown.at z values) (references K refs) = (refs.map values).prod := by
  induction refs
  case nil            => simp [references]
  case cons q refs hi => simp [references_cons, hi, Unknown.at]

theorem pderiv_references (refs : List String) : pderiv .parameter (references K refs) = 0 := by
  induction refs
  case nil            => simp [references]
  case cons q refs hi => simp [references_cons, Derivation.leibniz, hi]

-- By induction on the references, each of which adds the product of the others if it is to the type.
theorem eval_pderiv_references (refs : List String) :
    eval (Unknown.at z values) (pderiv (.value T) (references K refs)) =
      refs.count T * ((refs.erase T).map values).prod := by
  induction refs
  case nil            => simp [references]
  case cons q refs hi =>
    have step : eval (Unknown.at z values) (pderiv (.value T) (references K (q :: refs))) =
        values q * (refs.count T * ((refs.erase T).map values).prod) +
          (refs.map values).prod * eval (Unknown.at z values) (pderiv (.value T) (X (.value q))) := by
      simp [references_cons, Derivation.leibniz, hi, eval_references, Unknown.at]
    rw [step]
    by_cases he : q = T
    case neg =>
      have ne : Unknown.value q ≠ .value T := fun h => he (Unknown.value.inj h)
      have tail : (q :: refs).erase T = q :: refs.erase T := List.erase_cons_tail (by simpa using he)
      rw [pderiv_X_of_ne ne, map_zero, mul_zero, add_zero, List.count_cons_of_ne he, tail, List.map_cons,
        List.prod_cons, mul_left_comm]
    case pos =>
      subst he
      have others : values q * (refs.count q * ((refs.erase q).map values).prod) =
          refs.count q * (refs.map values).prod := by
        by_cases hq : q ∈ refs
        case pos => rw [← List.prod_map_erase values hq, mul_left_comm]
        case neg => rw [List.count_eq_zero.mpr hq, Nat.cast_zero, zero_mul, mul_zero, zero_mul]
      rw [pderiv_X_self, map_one, others, List.count_cons_self, List.erase_cons_head, Nat.cast_succ]
      ring

variable [LinearOrder K] {c : Constructor Symbol}

noncomputable def polynomial (K : Type) [Field K] [LinearOrder K] (c : Constructor Symbol) : MvPolynomial Unknown K :=
  C (Scalar.ofFloat c.weight) * X .parameter ^ c.size * references K c.refs

theorem eval_polynomial : eval (Unknown.at z values) (c.polynomial K) = c.term z values := by
  simp [polynomial, eval_references, term, Unknown.at]

theorem eval_pderiv_value :
    eval (Unknown.at z values) (pderiv (.value T) (c.polynomial K)) = c.partialBy z values T := by
  have ne : Unknown.parameter ≠ .value T := nofun
  have derivative : pderiv (.value T) (c.polynomial K) =
      C (Scalar.ofFloat c.weight) * X .parameter ^ c.size * pderiv (.value T) (references K c.refs) := by
    simp [polynomial, Derivation.leibniz, Derivation.leibniz_pow, pderiv_X_of_ne ne]
  rw [derivative, map_mul, eval_pderiv_references, partialBy]
  simp only [map_mul, map_pow, eval_C, eval_X, Unknown.at]
  ring

theorem eval_pderiv_parameter :
    eval (Unknown.at z values) (pderiv .parameter (c.polynomial K)) = c.slope z values := by
  have derivative : pderiv .parameter (c.polynomial K) =
      C (Scalar.ofFloat c.weight) * ((c.size : MvPolynomial Unknown K) * X .parameter ^ (c.size - 1)) *
        references K c.refs := by
    simp [polynomial, Derivation.leibniz, Derivation.leibniz_pow, pderiv_references]
    ring
  rw [derivative, map_mul, eval_references, slope]
  simp only [map_mul, map_pow, map_natCast, eval_C, eval_X, Unknown.at]

end Constructor

namespace TypeDef

-- The right-hand side of the equation of a type.
noncomputable def polynomial (K : Type) [Field K] [LinearOrder K] (t : TypeDef) : MvPolynomial Unknown K :=
  (t.constructors.map (Constructor.polynomial K)).sum

variable [LinearOrder K] {t : TypeDef}

theorem eval_polynomial : eval (Unknown.at z values) (t.polynomial K) = (t.constructors.map (·.term z values)).sum := by
  rw [polynomial, map_list_sum, List.map_map]
  exact congrArg _ <| List.map_congr_left fun _ _ => Constructor.eval_polynomial

theorem eval_pderiv (u : Unknown) : eval (Unknown.at z values) (pderiv u (t.polynomial K)) =
    (t.constructors.map fun c => eval (Unknown.at z values) (pderiv u (c.polynomial K))).sum := by
  rw [polynomial, map_list_sum, map_list_sum, List.map_map, List.map_map]
  rfl

end TypeDef

namespace Specification

variable {s : Specification} {y : List K}

-- The value of a type in a vector in the order of the table.
def valueIn (s : Specification) (y : List K) (T : String) : K := y.getD (s.names.idxOf T) 0

theorem map_valueIn (distinct : s.names.Nodup) (length : y.length = s.names.length) :
    s.names.map (s.valueIn y) = y := by
  refine List.ext_getElem (by rw [List.length_map, length]) fun i hi _ => ?_
  have hn : i < s.names.length := by simpa using hi
  simp [valueIn, distinct.idxOf_getElem, length ▸ hn]

end Specification

namespace Equations

open Specification

variable [LinearOrder K] {s : Specification} {y : List K}

-- At every point the terms, the right-hand sides, the Jacobian and the slopes are those of the polynomials; a zero among
-- the coordinates makes no difference.
theorem computes_polynomials {entries : List (Except Json Declaration)} {annotations : List (String × Json)}
    (declared : ofDeclarations entries annotations = .ok s) (z : K) (length : y.length = s.names.length) :
    (ofSystem s).values z y = s.productions.map (fun (_, c) =>
      Scalar.ofFloat c.weight * z ^ c.size * (c.refs.map (s.valueIn y)).prod) ∧
    (ofSystem s).phi z y = s.types.map (fun t => (t.constructors.map (·.term z (s.valueIn y))).sum) ∧
    (ofSystem s).phi z y = s.types.map (fun t => eval (Unknown.at z (s.valueIn y)) (t.polynomial K)) ∧
    (ofSystem s).jacobian z y = s.types.map (fun t => s.names.map fun T =>
      eval (Unknown.at z (s.valueIn y)) (pderiv (.value T) (t.polynomial K))) ∧
    (ofSystem s).slopes z y = s.types.map (fun t =>
      eval (Unknown.at z (s.valueIn y)) (pderiv .parameter (t.polynomial K))) := by
  have resolved := resolved declared
  obtain ⟨values, hv⟩ : ∃ values, s.valueIn y = values := ⟨_, rfl⟩
  have hy : y = s.names.map values := hv ▸ (map_valueIn resolved.names length).symm
  rw [hv, hy]
  have sums : (ofSystem s).phi z (s.names.map values) =
      s.types.map fun t => (t.constructors.map (·.term z values)).sum :=
    phi_ofSystem resolved
  refine ⟨?_, sums, ?_, ?_, ?_⟩
  · rw [values_ofSystem resolved, productions, List.map_flatMap]
    simp only [List.map_map]
    rfl
  · rw [sums]
    exact List.map_congr_left fun t _ => TypeDef.eval_polynomial.symm
  · rw [jacobian_ofSystem resolved]
    refine List.map_congr_left fun t _ => List.map_congr_left fun T _ => ?_
    simp only [entry, TypeDef.eval_pderiv, Constructor.eval_pderiv_value]
  · rw [slopes_ofSystem resolved]
    refine List.map_congr_left fun t _ => ?_
    simp only [TypeDef.eval_pderiv, Constructor.eval_pderiv_parameter]

-- Without words, one more letter still adds a word for each word.
theorem words_polynomials : ofDeclarations wordEntries [] = .ok words ∧ [(0 : ℚ), 1].length = words.names.length ∧
    words.types.map (fun t => words.names.map fun T =>
      eval (Unknown.at (1 / 4) (words.valueIn [0, 1])) (pderiv (.value T) (t.polynomial ℚ))) =
        [[1 / 4, 0], [0, 1 / 4]] := by
  have ⟨_, _, _, derivatives, _⟩ := @computes_polynomials ℚ _ _ words [0, 1] wordEntries [] rfl (1 / 4) rfl
  have computed : (ofSystem words).jacobian (1 / 4 : ℚ) [0, 1] = [[1 / 4, 0], [0, 1 / 4]] := by decide +kernel
  exact ⟨rfl, rfl, derivatives.symm.trans computed⟩

end Equations

end BoltzmannSampling
