import Mathlib
import BoltzmannSampling.Proofs.Numeric.Rational
import BoltzmannSampling.Proofs.Specification.Resolved
import BoltzmannSampling.Tuning.Branching

/-!
The equations of a system in exact arithmetic. A vector in the order of the table is given by a value for every type,
and the terms stand in the order of the constructors: the exponents of a term amount to the product over the
references, each equation has the terms of its own type, and cutting the terms into pieces gives them back by type.
-/

namespace BoltzmannSampling

variable {K : Type} [Field K] [LinearOrder K]
  {s : Specification} {names : List String} {types : List TypeDef} {z : K} {values : String → K}

namespace Constructor

-- The term of a constructor where the types have these values.
def term (c : Constructor Symbol) (z : K) (values : String → K) : K :=
  Scalar.ofFloat c.weight * z ^ c.size * (c.refs.map values).prod

end Constructor

namespace Term

-- Every type referred to counts as often as it is.
theorem monomial_count (distinct : names.Nodup) {refs : List String} (known : ∀ r ∈ refs, r ∈ names) :
    monomial (names.map values) (names.map fun n => refs.count n) = (refs.map values).prod := by
  have hz : List.zipWith Scalar.pow (names.map values) (names.map fun n => refs.count n) =
      names.map fun n => values n ^ refs.count n := by
    rw [List.zipWith_map, List.zipWith_self]
    rfl
  have subset : refs.toFinset ⊆ names.toFinset := fun r hr => by simpa using known r (by simpa using hr)
  rw [monomial, Scalar.product_eq, hz, ← List.prod_toFinset _ distinct, Finset.prod_list_map_count]
  refine (Finset.prod_subset subset fun n _ hn => ?_).symm
  rw [List.count_eq_zero.mpr (by simpa using hn), pow_zero]

theorem value_ofConstructor (distinct : names.Nodup) {c : Constructor Symbol} (known : ∀ r ∈ c.refs, r ∈ names)
    (i : Nat) (T : String) : (ofConstructor names i T c).value z (names.map values) = c.term z values := by
  rw [value, ofConstructor, monomial_count distinct known]
  rfl

end Term

namespace Equations

theorem values_termsFrom (distinct : names.Nodup) (known : ∀ t ∈ types, ∀ c ∈ t.constructors, ∀ r ∈ c.refs, r ∈ names)
    (i : Nat) : (termsFrom names i types).map (·.value z (names.map values)) =
      types.flatMap fun t => t.constructors.map (·.term z values) := by
  induction types generalizing i
  case nil => rfl
  case cons t types hi =>
    have ⟨ht, hs⟩ := List.forall_mem_cons.mp known
    rw [termsFrom, List.map_append, hi hs, List.flatMap_cons, List.map_map]
    exact congrArg (· ++ _) <| List.map_congr_left fun c hc => Term.value_ofConstructor distinct (ht c hc) i t.name

theorem owner_termsFrom {i : Nat} {x : Term} (h : x ∈ termsFrom names i types) : i ≤ x.owner := by
  induction types generalizing i
  case nil => cases h
  case cons t types hi =>
    cases List.mem_append.mp h
    case inl h =>
      have ⟨c, _, hc⟩ := List.mem_map.mp h
      exact hc ▸ le_rfl
    case inr h => exact (Nat.le_succ i).trans (hi h)

-- The terms of the type at the head of a table and those of the others.
theorem filter_owner_cons (t : TypeDef) (i k : Nat) : (termsFrom names i (t :: types)).filter (·.owner == i + k) =
    match k with
    | 0     => t.constructors.map (Term.ofConstructor names i t.name)
    | k + 1 => (termsFrom names (i + 1) types).filter (·.owner == i + 1 + k) := by
  rw [termsFrom, List.filter_append]
  cases k
  case zero =>
    have own : (t.constructors.map (Term.ofConstructor names i t.name)).filter (·.owner == i + 0) = _ :=
      List.filter_eq_self.mpr fun x hx => by
        have ⟨c, _, hc⟩ := List.mem_map.mp hx
        simp [← hc, Term.ofConstructor]
    have others : (termsFrom names (i + 1) types).filter (·.owner == i + 0) = [] :=
      List.filter_eq_nil_iff.mpr fun x hx => by
        have := owner_termsFrom hx
        simp
        omega
    rw [own, others, List.append_nil]
  case succ k =>
    have own : (t.constructors.map (Term.ofConstructor names i t.name)).filter (·.owner == i + (k + 1)) = [] :=
      List.filter_eq_nil_iff.mpr fun x hx => by
        have ⟨c, _, hc⟩ := List.mem_map.mp hx
        simp [← hc, Term.ofConstructor]
    have hk : i + (k + 1) = i + 1 + k := by omega
    rw [own, List.nil_append, hk]

-- What is made of the terms of each type, one type after the other.
theorem rows_termsFrom {β : Type} {F : List Term → β} {G : TypeDef → β}
    (h : ∀ t ∈ types, ∀ i, F (t.constructors.map (Term.ofConstructor names i t.name)) = G t) (i : Nat) :
    ((List.range types.length).map fun k => F ((termsFrom names i types).filter (·.owner == i + k))) = types.map G := by
  induction types generalizing i
  case nil => rfl
  case cons t types hi =>
    have ⟨ht, hs⟩ := List.forall_mem_cons.mp h
    rw [List.length_cons, List.range_succ_eq_map, List.map_cons, List.map_map, List.map_cons, ← hi hs (i + 1), ← ht i]
    simp only [filter_owner_cons, Function.comp_def]

theorem rows_ofSystem {β : Type} (F : List Term → β) {G : TypeDef → β}
    (h : ∀ t ∈ s.types, ∀ i, F (t.constructors.map (Term.ofConstructor s.names i t.name)) = G t) :
    ((List.range (ofSystem s).order).map fun i => F ((ofSystem s).terms.filter (·.owner == i))) = s.types.map G := by
  rw [← rows_termsFrom h 0, order, ofSystem, Specification.names, List.length_map]
  simp only [Nat.zero_add]

theorem byType_ofSystem {f : Term → K} {g : Constructor Symbol → K}
    (h : ∀ t ∈ s.types, ∀ c ∈ t.constructors, ∀ i, f (Term.ofConstructor s.names i t.name c) = g c) :
    (ofSystem s).byType f = s.types.map fun t => (t.constructors.map g).sum := by
  have rows : ∀ t ∈ s.types, ∀ i, Scalar.sum ((t.constructors.map (Term.ofConstructor s.names i t.name)).map f) =
      (t.constructors.map g).sum := by
    intro t ht i
    rw [Scalar.sum_eq, List.map_map]
    exact congrArg _ <| List.map_congr_left fun c hc => h t ht c hc i
  exact rows_ofSystem (fun terms => Scalar.sum (terms.map f)) rows

theorem values_ofSystem (resolved : s.Resolved) : (ofSystem s).values z (s.names.map values) =
    s.types.flatMap fun t => t.constructors.map (·.term z values) :=
  values_termsFrom resolved.names resolved.refs 0

theorem phi_ofSystem (resolved : s.Resolved) : (ofSystem s).phi z (s.names.map values) =
    s.types.map fun t => (t.constructors.map (·.term z values)).sum :=
  byType_ofSystem fun t ht c hc i => Term.value_ofConstructor resolved.names (resolved.refs t ht c hc) i t.name

theorem slices_flatMap {β : Type} (g : Constructor Symbol → β) :
    slices (types.map (·.constructors.length)) (types.flatMap fun t => t.constructors.map g) =
      types.map fun t => t.constructors.map g := by
  induction types
  case nil => rfl
  case cons t types hi =>
    rw [List.map_cons, List.flatMap_cons, slices, List.map_cons, ← hi]
    simp [List.take_left', List.drop_left']

end Equations

end BoltzmannSampling
