import Mathlib
import BoltzmannSampling.Proofs.Sampler.Plans
import BoltzmannSampling.Proofs.Sampler.Stages

/-!
Constructors picked by numbers. The thresholds of a type are as many as its constructors and the last one is one, so
that every number below one picks a constructor.
-/

namespace BoltzmannSampling

section Search

variable {α : Type} [Scalar α] {hs : Array α} {u : α} {low high : Nat}

theorem searchRight_le (h : low ≤ high) : searchRight hs u low high ≤ high := by
  fun_induction searchRight hs u low high
  case case1 hi => exact hi (by omega)
  case case2 hi => exact (hi (by omega)).trans (by omega)
  case case3    => exact h

-- The search ends behind a threshold that the number reaches, with one that it does not reach.
theorem searchRight_spec (h : low ≤ high) :
    (searchRight hs u low high = low ∨
      ∃ k, searchRight hs u low high = k + 1 ∧ Scalar.le (hs.getD k (Scalar.ofNat 1)) u = true) ∧
    (searchRight hs u low high = high ∨
      Scalar.le (hs.getD (searchRight hs u low high) (Scalar.ofNat 1)) u = false) := by
  fun_induction searchRight hs u low high
  case case1 low high _ middle reached hi =>
    have ⟨behind, before⟩ := hi (by omega)
    refine ⟨.inr ?_, before⟩
    rcases behind with start | behind
    · exact ⟨middle, start, reached⟩
    · exact behind
  case case2 low high _ middle reached hi =>
    have ⟨behind, before⟩ := hi (by omega)
    refine ⟨behind, .inr ?_⟩
    rcases before with stop | before
    · rw [stop]
      exact Bool.of_not_eq_true reached
    · exact before
  case case3 => exact ⟨.inl rfl, .inl (by omega)⟩

-- A number below the last threshold meets a threshold above it.
theorem searchRight_lt (h : low < high) (last : Scalar.le (hs.getD (high - 1) (Scalar.ofNat 1)) u = false) :
    searchRight hs u low high < high := by
  refine lt_of_le_of_ne (searchRight_le h.le) fun stop => ?_
  have ⟨ends, _⟩ : (searchRight hs u low high = low ∨ _) ∧ _ := searchRight_spec h.le
  rcases ends with start | ⟨k, behind, reached⟩
  · omega
  · obtain rfl : k = high - 1 := by omega
    exact Bool.false_ne_true (last.symm.trans reached)

end Search

namespace Tuned

variable {tuned : Tuned} {t : TypeDef} {u : Float}

theorem getLast?_thresholds {ps : List Float} (h : ps ≠ []) : (thresholds ps).getLast? = some 1 := by
  cases ps
  case nil  => exact absurd rfl h
  case cons =>
    rw [thresholds, List.getLast?_concat]
    rfl

theorem length_probabilitiesOf (resolved : tuned.system.Resolved) (ht : t ∈ tuned.system.types) :
    ((tuned.probabilitiesOf? t.name).getD []).length = t.constructors.length := by
  have ⟨ps, hf⟩ := tuned.find?_rows resolved ht
  simpa [probabilitiesOf?, hf] using length_of_mem_rows (List.mem_of_find?_eq_some hf)

-- A number below one always picks a constructor, since the last threshold is one.
theorem index_lt (resolved : tuned.system.Resolved) (ht : t ∈ tuned.system.types) (inhabited : t.constructors ≠ [])
    (hu : ¬(1 : Float) ≤ u) : (tuned.dispatch t).index u < t.constructors.length := by
  have length := length_probabilitiesOf resolved ht
  have positive : 0 < t.constructors.length := List.length_pos_iff.mpr inhabited
  simp only [Dispatch.index, dispatch, length_thresholds, length]
  apply searchRight_lt positive
  have last : (thresholds ((tuned.probabilitiesOf? t.name).getD [])).getLast? = some 1 := by
    apply getLast?_thresholds
    exact List.length_pos_iff.mp (length ▸ positive)
  rw [List.getLast?_eq_getElem?, length_thresholds, length] at last
  simp [Array.getD_eq_getD_getElem?, last, Scalar.le, hu]

theorem exists_plan (resolved : tuned.system.Resolved) (ht : t ∈ tuned.system.types) (inhabited : t.constructors ≠ [])
    (hu : ¬(1 : Float) ≤ u) :
    ∃ c ∈ t.constructors, (Decider.always u).plan (tuned.dispatch t) () = (some (tuned.plan t c), ()) := by
  have plans : (tuned.dispatch t).plans = t.constructors.map (tuned.plan t) := rfl
  rw [Decider.plan]
  split
  case isTrue =>
    have found := List.getElem?_eq_getElem <| index_lt resolved ht inhabited hu
    refine ⟨_, List.mem_of_getElem? found, ?_⟩
    simp only [Decider.always, Decider.ofNumbers, plans, List.getElem?_map, found, Option.map_some]
  case isFalse =>
    obtain ⟨c, rest, hc⟩ := List.exists_cons_of_ne_nil inhabited
    exact ⟨c, hc ▸ List.mem_cons_self, by simp [plans, hc]⟩

end Tuned

end BoltzmannSampling
