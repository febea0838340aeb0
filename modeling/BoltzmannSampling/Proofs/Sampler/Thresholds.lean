import Mathlib
import BoltzmannSampling.Proofs.Number.Rounding
import BoltzmannSampling.Proofs.Sampler.Choices

/-!
The constructor that a number picks, by the sums of the probabilities. The sums ascend, rounded as they are. The
thresholds need not: the last of them is one, where the sums before it may already be above one. A number below one does
not reach any of those, so that the search still ends with the first sum above the number.
-/

namespace BoltzmannSampling

open Binary64

section Sums

variable {ps : List Float} {total : Float}

theorem runningSums_ascending (low : 0 ≤ total) (nonneg : ∀ p ∈ ps, 0 ≤ p) :
    (total :: runningSums total ps).Pairwise (· ≤ ·) := by
  induction ps generalizing total
  case nil            => exact List.pairwise_singleton _ _
  case cons p rest hi =>
    have step : total ≤ total + p := le_add low (nonneg p List.mem_cons_self)
    have sums := hi (le_transitive low step) fun q hq => nonneg q (List.mem_cons_of_mem _ hq)
    have above := (List.pairwise_cons.mp sums).1
    exact List.pairwise_cons.mpr ⟨List.forall_mem_cons.mpr ⟨step, fun x hx => le_transitive step (above x hx)⟩, sums⟩

theorem accumulated_ascending (nonneg : ∀ p ∈ ps, 0 ≤ p) :
    (accumulated ps).Pairwise (· ≤ ·) ∧ ∀ x ∈ accumulated ps, 0 ≤ x := by
  cases ps
  case nil         => exact ⟨List.Pairwise.nil, fun x hx => nomatch hx⟩
  case cons p rest =>
    have ⟨low, nonneg⟩ := List.forall_mem_cons.mp nonneg
    have ascending := runningSums_ascending low nonneg
    have above := (List.pairwise_cons.mp ascending).1
    exact ⟨ascending, List.forall_mem_cons.mpr ⟨low, fun x hx => le_transitive low (above x hx)⟩⟩

end Sums

namespace Tuned

variable {tuned : Tuned} {t : TypeDef} {ps : List Float} {u v : Float} {k : Nat}

-- The sums ascend, so that a number that reaches one of them reaches all before it.
theorem Around.index_eq (around : Around (thresholds ps) u k) (nonneg : ∀ p ∈ ps, 0 ≤ p) (hk : k < ps.length)
    (high : u < 1) : k = min ((accumulated ps).findIdx (u < ·)) (ps.length - 1) := by
  have ⟨ascending, low⟩ := accumulated_ascending nonneg
  have bound : k < (accumulated ps).length := by rwa [length_accumulated]
  have reached (j : Nat) (hj : j < k) : ¬u < (accumulated ps)[j] := by
    rcases around.behind with rfl | ⟨i, x, rfl, hx, le⟩
    · cases hj
    · rw [getElem?_thresholds hk] at hx
      have ⟨hi, sum⟩ := List.getElem?_eq_some_iff.mp hx
      have before : (accumulated ps)[j] ≤ u := by
        rcases (Nat.le_of_lt_succ hj).lt_or_eq with less | rfl
        · exact le_transitive (sum ▸ List.pairwise_iff_getElem.mp ascending j i _ hi less) le
        · exact sum ▸ le
      exact fun less => not_le_of_lt less before
  by_cases last : k + 1 = ps.length
  case pos =>
    have := List.le_findIdx_of_not bound (p := fun x => decide (u < x)) fun j hj => by simpa using reached j hj
    omega
  case neg =>
    have sum := List.getElem?_eq_getElem bound
    have unreached : ¬(accumulated ps)[k] ≤ u := around.before _ ((getElem?_thresholds (by omega)).trans sum)
    have above : u < (accumulated ps)[k] :=
      lt_of_comparable (comparable (low _ (List.getElem_mem bound))) (comparable_of_lt high) unreached
    have := (List.findIdx_eq bound (p := fun x => decide (u < x))).mpr
      ⟨decide_eq_true above, fun j hj => by simpa using reached j hj⟩
    omega

theorem index_eq_first (resolved : tuned.system.Resolved) (ht : t ∈ tuned.system.types)
    (several : 2 ≤ t.constructors.length) (sums : (tuned.dispatch t).thresholds = thresholds ps)
    (length : ps.length = t.constructors.length) (nonneg : ∀ p ∈ ps, 0 ≤ p) (high : u < 1) :
    (tuned.dispatch t).index u = min ((accumulated ps).findIdx (u < ·)) (t.constructors.length - 1) := by
  have inhabited : t.constructors ≠ [] := List.length_pos_iff.mp (by omega)
  have bound : (tuned.dispatch t).index u < ps.length := length ▸ index_lt resolved ht inhabited (not_le_of_lt high)
  have around : Around (thresholds ps) u ((tuned.dispatch t).index u) :=
    sums ▸ around_index _ (by rwa [sums, length_thresholds])
  exact length ▸ around.index_eq nonneg bound high

end Tuned

namespace Specification

def signEntries : List (Except Json Declaration) :=
  let sign (name : String) : Constructor Arg := ⟨name, [.plain (.atom .unit)], 1, isWeight_one⟩
  [.ok ⟨"T", [.ok (sign "Plus"), .ok (sign "Minus"), .ok (sign "Zero")], .text "plain", none, 0⟩]

def signType : TypeDef :=
  let sign (name : String) : Constructor Symbol := ⟨name, [.atom .unit], 1, isWeight_one⟩
  ⟨"T", [sign "Plus", sign "Minus", sign "Zero"], .declared none 0⟩

def signs : Specification where
  types       := [signType]
  initial     := "T"
  annotations := []

end Specification

namespace Tuned

open Specification

variable {tuned : Tuned} {t : TypeDef}

-- The first two probabilities sum to more than one, within the tolerance.
def signs : Tuned where
  system         := .signs
  classification := .rational
  mode           := .regular
  singularity    := 0.5
  parameter      := 0.5
  values         := []
  probabilities  := [[0.5, 0.5000005, 0]]
  aligned        := rfl

-- A number picks the constructor of the first sum of probabilities above it, or the last constructor if there is none;
-- greater numbers pick later constructors.
theorem first_above_picked {entries : List (Except Json Declaration)} {annotations : List (String × Json)}
    (declared : Specification.ofDeclarations entries annotations = .ok tuned.system)
    (probable : ∀ ps ∈ tuned.probabilities, ∀ p ∈ ps, TuningData.isProbability p) (ht : t ∈ tuned.system.types)
    (several : 2 ≤ t.constructors.length) :
    ∃ d ps, (Sampler.ofTuned tuned).dispatch? t.name = some d ∧ tuned.probabilitiesOf? t.name = some ps ∧
      (∀ u : Float, u < 1 →
        d.index u = min ((accumulated ps).findIdx (u < ·)) (t.constructors.length - 1) ∧
        ∃ c, t.constructors[d.index u]? = some c ∧
          ∀ {σ : Type} (next : σ → Float × σ) (source : σ), (next source).1 = u →
            (Decider.ofNumbers next).plan d source = (some (tuned.plan t c), (next source).2)) ∧
      ∀ u v : Float, u ≤ v → v < 1 → d.index u ≤ d.index v := by
  have resolved := Specification.resolved declared
  have ⟨ps, mem, vector, sums⟩ := exists_vector resolved ht
  have nonneg (p : Float) (hp : p ∈ ps) : 0 ≤ p := by
    have probable := probable ps (tuned.rows_probabilities ▸ List.mem_map_of_mem mem) p hp
    exact of_decide_eq_true (Bool.and_eq_true_iff.mp probable).2
  have first {u : Float} (high : u < 1) := index_eq_first resolved ht several sums (length_of_mem_rows mem) nonneg high
  refine ⟨_, ps, dispatch?_eq resolved ht, vector, fun u high => ?picked, fun u v le high => ?later⟩
  case picked => exact ⟨first high, dispatch_picks resolved ht several high⟩
  case later =>
    have fewer : (accumulated ps).findIdx (u < ·) ≤ (accumulated ps).findIdx (v < ·) :=
      List.findIdx_le_findIdx fun x _ above => decide_eq_true (lt_of_le_lt le (of_decide_eq_true above))
    rw [first high, first (lt_of_le_lt le high)]
    exact min_le_min_right _ fewer

-- The thresholds do not ascend, and three quarters still pick the second constructor.
theorem signs_first_above : ofDeclarations signEntries [] = .ok .signs ∧
    (∀ ps ∈ signs.probabilities, TuningData.IsVector ps) ∧ signType ∈ signs.system.types ∧
    2 ≤ signType.constructors.length ∧ ¬(thresholds [0.5, 0.5000005, (0 : Float)]).Pairwise (· ≤ ·) ∧
    (0.75 : Float) < 1 ∧ ∃ d c, (Sampler.ofTuned signs).dispatch? "T" = some d ∧ d.index 0.75 = 1 ∧
      signType.constructors[1]? = some c ∧
      ∀ {σ : Type} (next : σ → Float × σ) (source : σ), (next source).1 = 0.75 →
        (Decider.ofNumbers next).plan d source = (some (signs.plan signType c), (next source).2) := by
  have vector : TuningData.IsVector [0.5, 0.5000005, 0] := ⟨by decide +kernel, by decide +kernel⟩
  have vectors : ∀ ps ∈ signs.probabilities, TuningData.IsVector ps := List.forall_mem_singleton.mpr vector
  have member : signType ∈ signs.system.types := List.mem_cons_self
  have several : 2 ≤ signType.constructors.length := by decide
  have below : (0.75 : Float) < 1 := by decide +kernel
  have ⟨d, ps, dispatch, probabilities, picks, _⟩ :=
    @first_above_picked signs signType signEntries [] rfl (fun ps hp => (vectors ps hp).probable) member several
  have ⟨index, c, picked, plan⟩ := picks 0.75 below
  cases probabilities
  have second : d.index 0.75 = 1 := index.trans (by decide +kernel)
  exact ⟨rfl, vectors, member, several, by decide +kernel, below, d, c, dispatch, second, second ▸ picked, plan⟩

end Tuned

end BoltzmannSampling
