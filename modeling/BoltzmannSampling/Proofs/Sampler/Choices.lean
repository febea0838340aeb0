import Mathlib
import BoltzmannSampling.Proofs.Number.Order
import BoltzmannSampling.Proofs.Sampler.Picks
import BoltzmannSampling.Proofs.Tuning.Reloading

/-!
The probability of the constructor that a number picks. The search ends with a threshold that the number does not
reach, behind one that it reaches. A probability of zero leaves no room between the two, since adding it changes
nothing. The last threshold alone is no sum of probabilities but one; so if the probabilities sum to less, a number
from their sum on picks the last constructor, whatever its probability.
-/

namespace BoltzmannSampling


section

variable {α : Type} [Scalar α]

-- The running sums of probabilities, of which the last is the sum of all.
def accumulated : List α → List α
  | []        => []
  | p :: rest => p :: runningSums p rest

variable {ps : List α} {p total : α} {k : Nat}

theorem length_accumulated : (accumulated ps).length = ps.length := by
  cases ps
  case nil         => rfl
  case cons p rest => rw [accumulated, List.length_cons, Tuned.length_runningSums, List.length_cons]

theorem getElem?_accumulated_zero : (accumulated ps)[0]? = ps[0]? := by
  cases ps <;> rfl

theorem getElem?_accumulated_succ (before : (accumulated ps)[k]? = some total) (h : ps[k + 1]? = some p) :
    (accumulated ps)[k + 1]? = some (total + p) := by
  cases ps
  case nil         => cases h
  case cons q rest =>
    rw [List.getElem?_cons_succ] at h
    simp only [accumulated] at before ⊢
    induction rest generalizing q k
    case nil               => cases h
    case cons q' rest hi   =>
      cases k
      case zero   =>
        cases h
        cases before
        rfl
      case succ k =>
        rw [List.getElem?_cons_succ] at h
        exact @hi k (q + q') before h

theorem getElem?_thresholds (h : k + 1 < ps.length) : (thresholds ps)[k]? = (accumulated ps)[k]? := by
  cases ps
  case nil         => cases h
  case cons q rest =>
    have length : k < (accumulated (q :: rest)).dropLast.length := by
      rw [List.length_dropLast, length_accumulated]
      omega
    change ((accumulated (q :: rest)).dropLast ++ _)[k]? = _
    rw [List.getElem?_append_left length, List.getElem?_dropLast, if_pos (by simpa using length)]

end

namespace Tuned

open Binary64

variable {tuned : Tuned} {t : TypeDef} {ps : List Float} {u p : Float} {k : Nat}

-- The thresholds around an index that the search ends with.
structure Around (hs : List Float) (u : Float) (k : Nat) : Prop where
  behind : k = 0 ∨ ∃ j x, k = j + 1 ∧ hs[j]? = some x ∧ x ≤ u
  before : ∀ x, hs[k]? = some x → ¬x ≤ u

theorem around_index (d : Dispatch) (h : d.index u < d.thresholds.length) : Around d.thresholds u (d.index u) := by
  obtain ⟨behind, before⟩ : (d.index u = 0 ∨
      ∃ j, d.index u = j + 1 ∧ Scalar.le (d.thresholds.toArray.getD j (Scalar.ofNat 1)) u = true) ∧
        (d.index u = d.thresholds.length ∨
          Scalar.le (d.thresholds.toArray.getD (d.index u) (Scalar.ofNat 1)) u = false) :=
    searchRight_spec d.thresholds.length.zero_le
  have entry {j : Nat} {x : Float} (hx : d.thresholds[j]? = some x) :
      d.thresholds.toArray.getD j (Scalar.ofNat 1) = x := by
    simp [Array.getD_eq_getD_getElem?, hx]
  refine ⟨?behind, fun x hx => ?before⟩
  case behind =>
    rcases behind with start | ⟨j, hj, reached⟩
    · exact .inl start
    · have found := List.getElem?_eq_getElem (show j < d.thresholds.length by omega)
      rw [entry found] at reached
      exact .inr ⟨j, _, hj, found, of_decide_eq_true reached⟩
  case before =>
    rw [entry hx] at before
    exact of_decide_eq_false (before.resolve_left h.ne)

-- Between a sum and the sum with a probability of zero there is no number.
theorem Around.positive (around : Around (thresholds ps) u k) (probable : ∀ p ∈ ps, TuningData.isProbability p)
    (several : 2 ≤ ps.length) (hu : 0 ≤ u) (hp : ps[k]? = some p) :
    0 < p ∨ k + 1 = ps.length ∧ (p == 0) = true ∧ ∃ total, (accumulated ps).getLast? = some total ∧ total ≤ u := by
  by_cases positive : 0 < p
  case pos => exact .inl positive
  case neg =>
    have ⟨finite, nonneg⟩ := Bool.and_eq_true_iff.mp (probable p (List.mem_of_getElem? hp))
    have ⟨s, zero⟩ := exists_zero finite (of_decide_eq_true nonneg) positive
    have hk : k < ps.length := (List.getElem?_eq_some_iff.mp hp).1
    rcases around.behind with rfl | ⟨j, x, rfl, hx, reached⟩
    · have first : (thresholds ps)[0]? = some p := by
        rw [getElem?_thresholds (by omega), getElem?_accumulated_zero, hp]
      exact absurd (le_of_zero zero hu) (around.before p first)
    · rw [getElem?_thresholds hk] at hx
      have sum := getElem?_accumulated_succ hx hp
      have le := add_le_of_zero zero reached
      by_cases last : j + 2 = ps.length
      case pos =>
        refine .inr ⟨last, beq_zero zero, _, ?_, le⟩
        rw [List.getLast?_eq_getElem?, length_accumulated, ← last]
        exact sum
      case neg =>
        exact absurd le (around.before _ ((getElem?_thresholds (by omega)).trans sum))

theorem dispatch_picks (resolved : tuned.system.Resolved) (ht : t ∈ tuned.system.types)
    (several : 2 ≤ t.constructors.length) (high : u < 1) : ∃ c, t.constructors[(tuned.dispatch t).index u]? = some c ∧
      ∀ {σ : Type} (next : σ → Float × σ) (source : σ), (next source).1 = u →
        (Decider.ofNumbers next).plan (tuned.dispatch t) source = (some (tuned.plan t c), (next source).2) := by
  have inhabited : t.constructors ≠ [] := List.length_pos_iff.mp (by omega)
  have found := List.getElem?_eq_getElem (index_lt resolved ht inhabited (not_le_of_lt high))
  have needed : (tuned.dispatch t).needsDraw = true := by
    simp only [Dispatch.needsDraw, dispatch, List.length_map, bne_iff_ne]
    omega
  have plans : (tuned.dispatch t).plans = t.constructors.map (tuned.plan t) := rfl
  refine ⟨_, found, fun next source hu => ?_⟩
  rw [Decider.plan, if_pos needed]
  simp only [Decider.ofNumbers, hu, plans, List.getElem?_map, found, Option.map_some]

-- A type has a vector of probabilities, whose sums are the thresholds of its dispatch.
theorem exists_vector (resolved : tuned.system.Resolved) (ht : t ∈ tuned.system.types) :
    ∃ ps, (t, ps) ∈ tuned.rows ∧ tuned.probabilitiesOf? t.name = some ps ∧
      (tuned.dispatch t).thresholds = thresholds ps := by
  have ⟨ps, row⟩ := tuned.find?_rows resolved ht
  have vector : tuned.probabilitiesOf? t.name = some ps := by rw [probabilitiesOf?, row, Option.map_some]
  exact ⟨ps, List.mem_of_find?_eq_some row, vector, by rw [dispatch, vector, Option.getD_some]⟩

theorem probability?_getElem (resolved : tuned.system.Resolved) (mem : (t, ps) ∈ tuned.rows) {c : Constructor Symbol}
    (hc : t.constructors[k]? = some c) (hp : ps[k]? = some p) : tuned.probability? c.name = some p := by
  have names := congrArg (·[k]?) (map_probability? resolved mem)
  simpa [hc, hp] using names

end Tuned

namespace Specification

def markEntries : List (Except Json Declaration) :=
  let leaf : Constructor Arg := ⟨"Leaf", [.plain (.atom .unit)], 1, isWeight_one⟩
  let mark : Constructor Arg := ⟨"Mark", [.plain (.atom .unit), .plain (.atom .unit)], 1, isWeight_one⟩
  [.ok ⟨"T", [.ok leaf, .ok mark], .text "plain", none, 0⟩]

def markType : TypeDef :=
  let leaf : Constructor Symbol := ⟨"Leaf", [.atom .unit], 1, isWeight_one⟩
  let mark : Constructor Symbol := ⟨"Mark", [.atom .unit, .atom .unit], 1, isWeight_one⟩
  ⟨"T", [leaf, mark], .declared none 0⟩

def marks : Specification where
  types       := [markType]
  initial     := "T"
  annotations := []

theorem marks_declared : ofDeclarations markEntries [] = .ok marks := rfl

end Specification

namespace Tuned

open Specification

-- The probabilities sum to less than one, within the tolerance.
def marks : Tuned where
  system         := .marks
  classification := .rational
  mode           := .regular
  singularity    := 0.5
  parameter      := 0.5
  values         := []
  probabilities  := [[0.9999992, 0]]
  aligned        := rfl

def markRows : String := "constructor,probability,singularity\nLeaf,0.9999992,0.5\nMark,0.0,0.5\n"

theorem marks_loaded :
    load (fun _ => .ok markRows) ⟨.marks, .rational, []⟩ .regular "marks" (some "csv") = .ok marks := by
  have contents : (load (fun _ => .ok markRows) ⟨.marks, .rational, []⟩ .regular "marks" (some "csv")).toOption.map
      (fun tuned => (tuned.singularity, tuned.parameter, tuned.values, tuned.probabilities)) =
        some (0.5, 0.5, [], [[0.9999992, 0]]) := by
    decide +kernel
  have ⟨tuned, loaded, same⟩ := Checks.exists_of_toOption contents
  have ⟨_, _, system, classification, mode⟩ := valid_of_load (Specification.resolved marks_declared) loaded
  obtain ⟨⟩ := tuned
  cases system
  cases classification
  cases mode
  cases same
  exact loaded

-- No number picks a constructor of probability zero, but for the last constructor of a type, which a number picks that
-- is at least the sum of the probabilities.
theorem picked_positive {entries : List (Except Json Declaration)} {annotations : List (String × Json)} {files : Files}
    {c : Checked} {mode : Mode} {path : String} {asked : Option String}
    (declared : Specification.ofDeclarations entries annotations = .ok c.system)
    (loaded : load files c mode path asked = .ok tuned) (ht : t ∈ tuned.system.types)
    (several : 2 ≤ t.constructors.length) (low : 0 ≤ u) (high : u < 1) :
    ∃ d k con p, (Sampler.ofTuned tuned).dispatch? t.name = some d ∧
      t.constructors[k]? = some con ∧ tuned.probability? con.name = some p ∧
      (∀ {σ : Type} (next : σ → Float × σ) (source : σ), (next source).1 = u →
        (Decider.ofNumbers next).plan d source = (some (tuned.plan t con), (next source).2)) ∧
      (0 < p ∨ k + 1 = t.constructors.length ∧ (p == 0) = true ∧
        ∃ ps total, tuned.probabilitiesOf? t.name = some ps ∧ (accumulated ps).getLast? = some total ∧ total ≤ u) := by
  have ⟨valid, _, system, _, _⟩ := valid_of_load (Specification.resolved declared) loaded
  have resolved : tuned.system.Resolved := system ▸ Specification.resolved declared
  have ⟨ps, mem, vector, sums⟩ := exists_vector resolved ht
  have length := length_of_mem_rows mem
  have ⟨con, picked, plan⟩ := dispatch_picks resolved ht several high
  have hk : (tuned.dispatch t).index u < ps.length := length ▸ (List.getElem?_eq_some_iff.mp picked).1
  have hp := List.getElem?_eq_getElem hk
  have around : Around (thresholds ps) u ((tuned.dispatch t).index u) :=
    sums ▸ around_index _ (by rwa [sums, length_thresholds])
  have probable := (valid.probabilities ps (tuned.rows_probabilities ▸ List.mem_map_of_mem mem)).probable
  refine ⟨_, _, con, _, dispatch?_eq resolved ht, picked, probability?_getElem resolved mem picked hp, plan, ?_⟩
  rcases around.positive probable (length ▸ several) low hp with positive | ⟨last, zero, total, sum, le⟩
  · exact .inl positive
  · exact .inr ⟨last.trans length, zero, ps, total, vector, sum, le⟩

-- One half is below the sum of the probabilities.
theorem marks_picked : ofDeclarations markEntries [] = .ok .marks ∧
    load (fun _ => .ok markRows) ⟨.marks, .rational, []⟩ .regular "marks" (some "csv") = .ok marks ∧
    markType ∈ marks.system.types ∧ 2 ≤ markType.constructors.length ∧ (0 : Float) ≤ 0.5 ∧ (0.5 : Float) < 1 ∧
    ∃ d con p, (Sampler.ofTuned marks).dispatch? "T" = some d ∧ marks.probability? con.name = some p ∧
      (∀ {σ : Type} (next : σ → Float × σ) (source : σ), (next source).1 = 0.5 →
        (Decider.ofNumbers next).plan d source = (some (marks.plan markType con), (next source).2)) ∧ 0 < p := by
  have member : markType ∈ marks.system.types := List.mem_cons_self
  have within : (0 : Float) ≤ 0.5 ∧ (0.5 : Float) < 1 := by decide +kernel
  have ⟨d, k, con, p, dispatch, _, probability, plan, cases⟩ :=
    picked_positive marks_declared marks_loaded member le_rfl within.1 within.2
  refine ⟨rfl, marks_loaded, member, le_rfl, within.1, within.2, d, con, p, dispatch, probability, plan, ?_⟩
  rcases cases with positive | ⟨_, _, ps, total, vector, sum, le⟩
  · exact positive
  · cases vector
    cases sum
    exact absurd le (by decide +kernel)

-- A number between the sum of the probabilities and one picks the last constructor, whose probability is zero.
theorem marks_zero_picked : ofDeclarations markEntries [] = .ok .marks ∧
    load (fun _ => .ok markRows) ⟨.marks, .rational, []⟩ .regular "marks" (some "csv") = .ok marks ∧
    markType ∈ marks.system.types ∧ 2 ≤ markType.constructors.length ∧
    (0 : Float) ≤ 0.9999995 ∧ (0.9999995 : Float) < 1 ∧
    ∃ d con, (Sampler.ofTuned marks).dispatch? "T" = some d ∧ marks.probability? con.name = some 0 ∧
      ∀ {σ : Type} (next : σ → Float × σ) (source : σ), (next source).1 = 0.9999995 →
        (Decider.ofNumbers next).plan d source = (some (marks.plan markType con), (next source).2) := by
  have resolved : marks.system.Resolved := Specification.resolved marks_declared
  have member : markType ∈ marks.system.types := List.mem_cons_self
  have within : (0 : Float) ≤ 0.9999995 ∧ (0.9999995 : Float) < 1 := by decide +kernel
  have ⟨con, picked, plan⟩ := dispatch_picks resolved member le_rfl within.2
  have index : (marks.dispatch markType).index 0.9999995 = 1 := by decide +kernel
  refine ⟨rfl, marks_loaded, member, le_rfl, within.1, within.2, _, con, dispatch?_eq resolved member, ?_, plan⟩
  rw [index] at picked
  cases picked
  rfl

end Tuned

end BoltzmannSampling
