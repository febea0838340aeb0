import Mathlib
import BoltzmannSampling.Proofs.Assoc
import BoltzmannSampling.Proofs.Specification.Resolved
import BoltzmannSampling.Tuning.Tuned

/-!
The rows of a tuned system: every type of the table with a probability for each of its constructors. The probabilities
by name are those by place.
-/

namespace BoltzmannSampling

namespace Tuned

variable {α : Type} {tuned : Tuned α} {t : TypeDef} {ps : List α}

theorem length_runningSums [Scalar α] (total : α) (rest : List α) : (runningSums total rest).length = rest.length := by
  induction rest generalizing total
  case nil            => rfl
  case cons p rest hi => simp [runningSums, hi]

theorem length_thresholds (ps : List Float) : (thresholds ps).length = ps.length := by
  cases ps
  case nil         => rfl
  case cons p rest => simp [thresholds, length_runningSums]

theorem rows_types (tuned : Tuned α) : tuned.rows.map Prod.fst = tuned.system.types := by
  have := congrArg List.length tuned.aligned
  rw [List.length_map, List.length_map] at this
  exact List.map_fst_zip this.ge

theorem rows_probabilities (tuned : Tuned α) : tuned.rows.map Prod.snd = tuned.probabilities := by
  have := congrArg List.length tuned.aligned
  rw [List.length_map, List.length_map] at this
  exact List.map_snd_zip this.le

theorem length_of_mem_rows (h : (t, ps) ∈ tuned.rows) : ps.length = t.constructors.length := by
  have ⟨i, hi, he⟩ := List.getElem_of_mem h
  simp only [rows, List.getElem_zip, Prod.mk.injEq] at he
  simp only [rows, List.length_zip, Nat.lt_min] at hi
  have aligned := congrArg (·[i]?) tuned.aligned
  simpa [hi.1, hi.2, he.1, he.2] using aligned

theorem constructorProbabilities_names (tuned : Tuned α) :
    tuned.constructorProbabilities.map (·.1) = tuned.system.constructorNames := by
  have names : ∀ row ∈ tuned.rows,
      ((row.1.constructors.map (·.name)).zip row.2).map (·.1) = row.1.constructors.map (·.name) := fun row hr =>
    List.map_fst_zip (by rw [List.length_map, length_of_mem_rows hr])
  rw [constructorProbabilities, List.map_flatMap, List.flatMap_congr names, Specification.constructorNames,
    Specification.productions, List.map_flatMap, ← rows_types, List.flatMap_map]
  exact List.flatMap_congr fun _ _ => by rw [List.map_map]; rfl

theorem map_probability? (resolved : tuned.system.Resolved) (h : (t, ps) ∈ tuned.rows) :
    t.constructors.map (fun c => tuned.probability? c.name) = ps.map some := by
  have length := length_of_mem_rows h
  have distinct : (tuned.constructorProbabilities.map (·.1)).Nodup :=
    constructorProbabilities_names tuned ▸ resolved.constructors
  refine List.ext_getElem (by simp [length]) fun i hi hp => ?_
  rw [List.length_map] at hi hp
  have entry : (t.constructors[i].name, ps[i]) ∈ tuned.constructorProbabilities := by
    refine List.mem_flatMap.mpr ⟨_, h, List.mem_iff_getElem.mpr ⟨i, by simpa using ⟨hi, hp⟩, ?_⟩⟩
    simp
  rw [List.getElem_map, List.getElem_map]
  exact Assoc.get?_of_mem distinct entry

end Tuned

end BoltzmannSampling
