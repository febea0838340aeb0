import Mathlib
import BoltzmannSampling.Proofs.Assoc
import BoltzmannSampling.Proofs.Tuning.Terms
import BoltzmannSampling.Tuning.Solver

/-!
Branching probabilities in exact arithmetic. Where the equations of a system are solved by positive values, tuning
succeeds, and every probability is the term of its own constructor divided by the value of the type.
-/

namespace BoltzmannSampling

namespace Equations

variable {K : Type} [Field K] [LinearOrder K] {s : Specification} {z : K} {values : String → K}

theorem isPositive_iff {x : K} : isPositive x = true ↔ 0 < x := by
  simp [isPositive, Scalar.isFinite, Scalar.le, Scalar.ofNat]

theorem checkValues_positive {entries : List (String × K)} (h : ∀ x ∈ entries, 0 < x.2) :
    checkValues entries = .ok () := by
  induction entries
  case nil => rfl
  case cons x xs hi =>
    have ⟨hx, hs⟩ := List.forall_mem_cons.mp h
    rw [checkValues, if_pos (isPositive_iff.mpr hx), hi hs]

theorem sharesOf_positive {T : String} {terms : List K} (h : 0 < terms.sum) :
    sharesOf T terms = .ok (terms.map (· / terms.sum)) := by
  rw [sharesOf, Scalar.sum_eq, if_pos (isPositive_iff.mpr h)]

-- The types have these values, and they are the sums of the terms.
structure Solves (s : Specification) (z : K) (values : String → K) : Prop where
  positive : ∀ t ∈ s.types, 0 < values t.name
  sum      : ∀ t ∈ s.types, (t.constructors.map (·.term z values)).sum = values t.name

namespace Solves

-- The probability of a constructor of a type.
def share (z : K) (values : String → K) (t : TypeDef) (c : Constructor Symbol) : K :=
  c.term z values / values t.name

theorem branching (resolved : s.Resolved) (h : Solves s z values) :
    (ofSystem s).branching s.types ⟨z, s.names.map values⟩ =
      .ok (s.types.map fun t => t.constructors.map (share z values t)) := by
  have positive : ∀ x ∈ (ofSystem s).names.zip (s.names.map values), 0 < x.2 := by
    intro x hx
    have ⟨_, hn, hv⟩ := List.mem_map.mp (List.of_mem_zip hx).2
    have ⟨t, ht, hn⟩ := Specification.mem_names.mp hn
    exact hv ▸ hn ▸ h.positive t ht
  rw [Equations.branching, checkValues_positive positive, values_ofSystem resolved, slices_flatMap,
    ← List.map_prod_left_eq_zip]
  refine Checks.mapM_eq_ok.mpr <| List.forall₂_map_left_iff.mpr <| List.forall₂_map_right_iff.mpr <|
    List.forall₂_same.mpr fun t ht => ?_
  have hs := h.sum t ht
  change sharesOf t.name (t.constructors.map (·.term z values)) = _
  rw [sharesOf_positive (hs ▸ h.positive t ht), hs, List.map_map]
  rfl

end Solves

end Equations

namespace Tuned

variable {K : Type} {c : Checked} {f : TypeDef → List K} {tuned : Tuned K} {t : TypeDef}

theorem ofVectors_map (distinct : c.system.names.Nodup)
    (lengths : ∀ t ∈ c.system.types, (f t).length = t.constructors.length) (mode : Mode) (singularity z : K)
    (values : List (String × K)) : ∃ tuned,
      ofVectors c mode singularity z values (c.system.names.zip (c.system.types.map f)) = .ok tuned ∧
        tuned.system = c.system ∧ tuned.values = values ∧ tuned.probabilities = c.system.types.map f := by
  have entries : c.system.names.zip (c.system.types.map f) = c.system.types.map fun t => (t.name, f t) :=
    List.zip_map'
  have found : (c.system.types.map fun t =>
      (Assoc.get? (c.system.names.zip (c.system.types.map f)) t.name).getD []) = c.system.types.map f :=
    List.map_congr_left fun t ht => by rw [entries, Assoc.get?_map distinct f ht, Option.getD_some]
  have aligned : (c.system.types.map f).map List.length = c.system.types.map (·.constructors.length) := by
    rw [List.map_map]
    exact List.map_congr_left lengths
  simp only [ofVectors, found, aligned]
  exact ⟨_, rfl, rfl, rfl, rfl⟩

-- Tuning succeeds at a solution, and the tables are those of the shares.
theorem ofSolution_solves [Field K] [LinearOrder K] {z : K} {values : String → K} (resolved : c.system.Resolved)
    (h : Equations.Solves c.system z values) (report : BranchingFault K → Failure) (mode : Mode) (singularity : K) :
    ∃ tuned, ofSolution report c (.ofSystem c.system) mode singularity ⟨z, c.system.names.map values⟩ = .ok tuned ∧
      tuned.system = c.system ∧ tuned.values = c.system.names.zip (c.system.names.map values) ∧
        tuned.probabilities = c.system.types.map fun t => t.constructors.map (Equations.Solves.share z values t) := by
  have lengths : ∀ t ∈ c.system.types,
      (t.constructors.map (Equations.Solves.share z values t)).length = t.constructors.length :=
    fun t _ => List.length_map _
  have ⟨tuned, ht, found⟩ := ofVectors_map resolved.names lengths mode singularity z
    (c.system.names.zip (c.system.names.map values))
  refine ⟨tuned, ?_, found⟩
  rw [ofSolution, h.branching resolved]
  exact ht

theorem probability?_map {s : Specification} {p : TypeDef → Constructor Symbol → K} (system : tuned.system = s)
    (resolved : s.Resolved)
    (probabilities : tuned.probabilities = s.types.map fun t => t.constructors.map (p t))
    {c : Constructor Symbol} (ht : t ∈ s.types) (hc : c ∈ t.constructors) :
    tuned.probability? c.name = some (p t c) := by
  subst system
  have entries : tuned.constructorProbabilities = tuned.system.productions.map fun x => (x.2.name, p x.1 x.2) := by
    rw [constructorProbabilities, rows, probabilities, ← List.map_prod_left_eq_zip, List.flatMap_map,
      Specification.productions, List.map_flatMap]
    refine List.flatMap_congr fun t _ => ?_
    rw [List.map_map]
    exact List.zip_map'
  rw [probability?, entries]
  exact Assoc.get?_map (x := (t, c)) resolved.constructors _ <| Specification.mem_productions.mpr ⟨ht, hc⟩

end Tuned

end BoltzmannSampling
