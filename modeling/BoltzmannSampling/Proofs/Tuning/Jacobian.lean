import Mathlib
import BoltzmannSampling.Proofs.Assoc
import BoltzmannSampling.Proofs.Numeric.LinearSystem
import BoltzmannSampling.Proofs.Tuning.Terms

/-!
The derivatives of the equations of a system in exact arithmetic. The entries of the Jacobian and the slopes are sums
over the constructors of a type, and a solution `h` of `(I − J) h = b` gives every type its `b` and the change of its
terms to first order where the values of all types change by `h`.
-/

namespace BoltzmannSampling

variable {K : Type} [Field K] [LinearOrder K]
  {s : Specification} {names : List String} {z : K} {values h : String → K} {c : Constructor Symbol}

namespace Constructor

-- The derivative of the term by the value of a type.
def partialBy (c : Constructor Symbol) (z : K) (values : String → K) (T : String) : K :=
  c.refs.count T * Scalar.ofFloat c.weight * z ^ c.size * ((c.refs.erase T).map values).prod

-- The derivative of the term by `z`.
def slope (c : Constructor Symbol) (z : K) (values : String → K) : K :=
  Scalar.ofFloat c.weight * (c.size * z ^ (c.size - 1)) * (c.refs.map values).prod

-- The change of a product over references to first order where the values change by `h`: one reference after the other.
def firstOrder (values h : String → K) (refs : List String) : K :=
  (refs.map fun r => h r * ((refs.erase r).map values).prod).sum

-- The change of the term to first order.
def variation (c : Constructor Symbol) (z : K) (values h : String → K) : K :=
  Scalar.ofFloat c.weight * z ^ c.size * firstOrder values h c.refs

theorem sum_partialBy (distinct : names.Nodup) (known : ∀ r ∈ c.refs, r ∈ names) :
    (names.map fun n => c.partialBy z values n * h n).sum = c.variation z values h := by
  have factor : (names.map fun n => c.partialBy z values n * h n) = names.map fun n =>
      Scalar.ofFloat c.weight * z ^ c.size * (c.refs.count n * (h n * ((c.refs.erase n).map values).prod)) :=
    List.map_congr_left fun n _ => by
      rw [partialBy]
      ring
  rw [factor, List.sum_map_mul_left, Assoc.sum_count_mul distinct known, variation, firstOrder]

end Constructor

namespace Term

theorem value_lowered (distinct : names.Nodup) (known : ∀ r ∈ c.refs, r ∈ names) (i : Nat) (T : String) {j : Nat}
    (hj : j < names.length) :
    monomial (names.map values) ((ofConstructor names i T c).lowered j) = ((c.refs.erase names[j]).map values).prod := by
  have lowered : (ofConstructor names i T c).lowered j = names.map fun n => (c.refs.erase names[j]).count n := by
    refine List.ext_getElem (by simp [lowered, ofConstructor]) fun k hk _ => ?_
    have hk : k < names.length := by simpa [lowered, ofConstructor] using hk
    by_cases he : j = k
    case pos => simp [lowered, ofConstructor, he]
    case neg =>
      have ne : names[j] ≠ names[k] := fun h => he <| (distinct.getElem_inj_iff).mp h
      simp [lowered, ofConstructor, he, List.count_erase_of_ne ne.symm]
  rw [lowered, monomial_count distinct fun r hr => known r (List.mem_of_mem_erase hr)]

theorem derivative_ofConstructor (distinct : names.Nodup) (known : ∀ r ∈ c.refs, r ∈ names) (i : Nat) (T : String)
    {j : Nat} (hj : j < names.length) :
    (ofConstructor names i T c).derivative j z (names.map values) = c.partialBy z values names[j] := by
  rw [derivative, value_lowered distinct known i T hj]
  simp [ofConstructor, Constructor.partialBy, hj]

theorem slope_ofConstructor (distinct : names.Nodup) (known : ∀ r ∈ c.refs, r ∈ names) (i : Nat) (T : String) :
    (ofConstructor names i T c).slope z (names.map values) = c.slope z values := by
  have power : (if c.size = 0 then Scalar.ofNat 0 else Scalar.ofNat c.size * Scalar.pow z (c.size - 1)) =
      c.size * z ^ (c.size - 1) := by
    split
    case isTrue hz => simp [hz]
    case isFalse   => rfl
  rw [slope, Constructor.slope, ← power, ← monomial_count distinct known]
  rfl

end Term

namespace Equations

theorem slopes_ofSystem (resolved : s.Resolved) : (ofSystem s).slopes z (s.names.map values) =
    s.types.map fun t => (t.constructors.map (·.slope z values)).sum :=
  byType_ofSystem fun t ht c hc i => Term.slope_ofConstructor resolved.names (resolved.refs t ht c hc) i t.name

-- The entry of the Jacobian for two types.
def entry (z : K) (values : String → K) (t : TypeDef) (T : String) : K :=
  (t.constructors.map (·.partialBy z values T)).sum

-- Constructors without a reference to a type add nothing to its entry.
theorem sum_derivatives (resolved : s.Resolved) {t : TypeDef} (ht : t ∈ s.types) (i : Nat) {j : Nat}
    (hj : j < s.names.length) :
    Scalar.sum (((t.constructors.map (Term.ofConstructor s.names i t.name)).filter (·.exponents.getD j 0 != 0)).map
      fun x => x.derivative j z (s.names.map values)) = entry z values t s.names[j] := by
  rw [Scalar.sum_eq, entry]
  have known := resolved.refs t ht
  generalize t.constructors = cs at known
  induction cs
  case nil => rfl
  case cons c cs hi =>
    have ⟨hc, known⟩ := List.forall_mem_cons.mp known
    have exponent : (Term.ofConstructor s.names i t.name c).exponents.getD j 0 = c.refs.count s.names[j] := by
      simp [Term.ofConstructor, hj]
    rw [List.map_cons, List.filter_cons, exponent, List.map_cons, List.sum_cons, ← hi known]
    split
    case isTrue =>
      rw [List.map_cons, List.sum_cons, Term.derivative_ofConstructor resolved.names hc i t.name hj]
    case isFalse absent =>
      have zero : c.refs.count s.names[j] = 0 := by simpa using absent
      rw [Constructor.partialBy, zero, Nat.cast_zero, zero_mul, zero_mul, zero_mul, zero_add]

theorem jacobian_ofSystem (resolved : s.Resolved) : (ofSystem s).jacobian z (s.names.map values) =
    s.types.map fun t => s.names.map (entry z values t) := by
  refine rows_ofSystem (fun terms => (List.range (ofSystem s).order).map fun j =>
    Scalar.sum ((terms.filter (·.exponents.getD j 0 != 0)).map fun x => x.derivative j z (s.names.map values))) ?_
  intro t ht i
  refine List.ext_getElem (by simp [order, ofSystem]) fun j hj _ => ?_
  have hj : j < s.names.length := by simpa [order, ofSystem] using hj
  rw [List.getElem_map, List.getElem_map, List.getElem_range]
  exact sum_derivatives resolved ht i hj

theorem sum_entry (resolved : s.Resolved) {t : TypeDef} (ht : t ∈ s.types) :
    (s.names.map fun T => entry z values t T * h T).sum = (t.constructors.map (·.variation z values h)).sum := by
  have known := resolved.refs t ht
  simp only [entry]
  generalize t.constructors = cs at known
  induction cs
  case nil => simp
  case cons c cs hi =>
    have ⟨hc, known⟩ := List.forall_mem_cons.mp known
    simp only [List.map_cons, List.sum_cons, add_mul]
    rw [List.sum_map_add, hi known, Constructor.sum_partialBy resolved.names hc]

-- The Jacobian as a matrix.
def jacobianMatrix (s : Specification) (z : K) (y : List K) : Matrix (Fin s.names.length) (Fin s.names.length) K :=
  LinearSystem.matrix s.names.length ((ofSystem s).jacobian z y)

omit [LinearOrder K] in
theorem exists_values (distinct : names.Nodup) {y : List K} (length : y.length = names.length) :
    ∃ values : String → K, y = names.map values ∧ ∀ T ∉ names, values T = 0 := by
  refine ⟨fun T => y.getD (names.idxOf T) 0, List.ext_getElem (by rw [List.length_map, length]) fun i hi _ => ?_,
    fun T hT => ?_⟩
  · have hn : i < names.length := length ▸ hi
    simp [distinct.idxOf_getElem, hi]
  · simp [List.idxOf_eq_length_iff.mpr hT, ← length]

-- The product of the Jacobian with a vector, at a type.
theorem mulVec_jacobianMatrix (resolved : s.Resolved) (z : K) (values h : String → K) {i : Nat}
    (hi : i < s.types.length) (hn : i < s.names.length) :
    (jacobianMatrix s z (s.names.map values)).mulVec (LinearSystem.vector s.names.length (s.names.map h)) ⟨i, hn⟩ =
      (s.types[i].constructors.map (·.variation z values h)).sum := by
  have entries (j : Fin s.names.length) : jacobianMatrix s z (s.names.map values) ⟨i, hn⟩ j *
      LinearSystem.vector s.names.length (s.names.map h) j = entry z values s.types[i] s.names[j] * h s.names[j] := by
    rw [jacobianMatrix, jacobian_ofSystem resolved]
    simp [LinearSystem.matrix, LinearSystem.vector, hi]
  rw [Matrix.mulVec, dotProduct, Finset.sum_congr rfl fun j _ => entries j, ← sum_entry resolved (List.getElem_mem hi)]
  exact Fin.sum_univ_fun_getElem s.names fun T => entry z values s.types[i] T * h T

theorem linearized_ofSystem [IsStrictOrderedRing K] (resolved : s.Resolved) (b : TypeDef → K)
    (regular : IsUnit (1 - jacobianMatrix s z (s.names.map values))) :
    ∃ h : String → K, (ofSystem s).linearized z (s.names.map values) (s.types.map b) = some (s.names.map h) ∧
      (∀ T ∉ s.names, h T = 0) ∧
      ∀ t ∈ s.types, h t.name = (t.constructors.map (·.variation z values h)).sum + b t := by
  have length : s.types.length = s.names.length := by rw [Specification.names, List.length_map]
  have rows : ((ofSystem s).jacobian z (s.names.map values)).length = s.names.length ∧
      ∀ row ∈ (ofSystem s).jacobian z (s.names.map values), row.length = s.names.length := by
    rw [jacobian_ofSystem resolved]
    exact ⟨by rw [List.length_map, length], List.forall_mem_map.mpr fun t _ => List.length_map _⟩
  obtain ⟨xs, hs, hx, solution⟩ := LinearSystem.solve?_unitMinus rows.1 rows.2 (b := s.types.map b)
    (by rw [List.length_map, length]) regular
  obtain ⟨h, rfl, outside⟩ := exists_values resolved.names hx
  refine ⟨h, hs, outside, fun t ht => ?_⟩
  obtain ⟨i, hi, rfl⟩ := List.getElem_of_mem ht
  have hn : i < s.names.length := length ▸ hi
  have row := congrFun solution ⟨i, hn⟩
  rw [Pi.add_apply] at row
  have product := mulVec_jacobianMatrix resolved z values h hi hn
  rw [jacobianMatrix] at product
  rw [product] at row
  simpa [LinearSystem.vector, Specification.names, hi] using row

end Equations

end BoltzmannSampling
