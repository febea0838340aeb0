import Mathlib
import BoltzmannSampling.Proofs.Specification.Components
import BoltzmannSampling.Proofs.Tuning.Monotonicity

/-!
Newton's method for rational systems. No constructor of a rational system refers more than once into the component of
its own type, so that the equations are affine in the values of a component. Hence every step solves the equations on
one more level of components, and leaves those solved before as they are; after as many steps as there are components
all equations hold.
-/

namespace BoltzmannSampling

namespace Constructor

variable {K : Type} [Field K] [LinearOrder K] {c : Constructor Symbol} {z : K} {values h g : String → K}
  {own : String → Bool}

theorem variation_neg : c.variation z values (fun T => -h T) = -c.variation z values h := by
  have factors : (c.refs.map fun r => c.cofactor z values r * -h r) =
      c.refs.map fun r => -1 * (c.cofactor z values r * h r) :=
    List.map_congr_left fun r _ => by ring
  rw [variation_cofactors, variation_cofactors, factors, List.sum_map_mul_left, neg_one_mul]

theorem variation_congr (same : ∀ r ∈ c.refs, h r = g r) : c.variation z values h = c.variation z values g := by
  rw [variation_cofactors, variation_cofactors]
  exact congrArg _ <| List.map_congr_left fun r hr => by rw [same r hr]

theorem firstOrder_still {refs : List String} (still : ∀ r ∈ refs, h r = 0) : firstOrder values h refs = 0 :=
  List.sum_eq_zero <| List.forall_mem_map.mpr fun r hr => by rw [still r hr, zero_mul]

-- A product changes by its change to first order if only one factor changes.
theorem prod_add_of_single {refs : List String} (single : (refs.filter own).length ≤ 1)
    (still : ∀ r ∈ refs, own r = false → h r = 0) :
    (refs.map fun r => values r + h r).prod = (refs.map values).prod + firstOrder values h refs := by
  induction refs
  case nil            => exact (add_zero 1).symm
  case cons q refs hi =>
    have ⟨hq, rest⟩ := List.forall_mem_cons.mp still
    rw [List.map_cons, List.prod_cons, List.map_cons, List.prod_cons, firstOrder_cons]
    cases moves : own q
    case false =>
      rw [hi (by simpa [moves] using single) rest, hq moves]
      ring
    case true  =>
      have others : refs.filter own = [] := by simpa [moves] using single
      have fixed : ∀ r ∈ refs, h r = 0 := fun r hr => rest r hr <| by simpa using List.filter_eq_nil_iff.mp others r hr
      have same : refs.map (fun r => values r + h r) = refs.map values :=
        List.map_congr_left fun r hr => by rw [fixed r hr, add_zero]
      rw [same, firstOrder_still fixed]
      ring

theorem term_add_of_single (single : (c.refs.filter own).length ≤ 1) (still : ∀ r ∈ c.refs, own r = false → h r = 0) :
    c.term z (fun T => values T + h T) = c.term z values + c.variation z values h := by
  rw [term, prod_add_of_single single still, term, variation, mul_add]

end Constructor

namespace Equations

open Specification

variable {s : Specification} {z precision : ℝ} {values h : String → ℝ} {y : List ℝ} {k : Nat}

-- The equations hold for the types of so many levels.
def Settled (s : Specification) (z : ℝ) (k : Nat) (values : String → ℝ) : Prop :=
  ∀ t ∈ s.types, s.LevelsAtMost k t.name → values t.name = (t.constructors.map (·.term z values)).sum

-- What is at most its variation is not positive.
theorem Inside.nonpos (inside : Inside s z values) (resolved : s.Resolved) (hz : 0 ≤ z) (nonneg : ∀ T, 0 ≤ values T)
    (le : ∀ t ∈ s.types, h t.name ≤ (t.constructors.map (·.variation z values h)).sum) : ∀ T ∈ s.names, h T ≤ 0 := by
  have below := inside.nonneg (h := fun T => -h T) resolved hz nonneg fun t ht => by
    have opposite : t.constructors.map (·.variation z values fun T => -h T) =
        t.constructors.map fun c => -1 * c.variation z values h :=
      List.map_congr_left fun c _ => by rw [Constructor.variation_neg, neg_one_mul]
    rw [opposite, List.sum_map_mul_left, neg_one_mul]
    exact neg_le_neg (le t ht)
  exact fun T hT => neg_nonneg.mp (below T hT)

-- A step does not change what is settled: its part there is its own variation.
theorem IsStep.still_of_settled (step : IsStep s z values h) (inside : Inside s z values) (resolved : s.Resolved)
    (hz : 0 ≤ z) (nonneg : ∀ T, 0 ≤ values T) (up : ∀ T, 0 ≤ h T) (settled : Settled s z k values) :
    ∀ T ∈ s.names, s.LevelsAtMost k T → h T = 0 := by
  classical
  let part (T : String) : ℝ := if s.LevelsAtMost k T then h T else 0
  have part_nonneg (T : String) : 0 ≤ part T := by
    simp only [part]
    split
    · exact up T
    · exact le_rfl
  have below : ∀ T ∈ s.names, part T ≤ 0 := by
    refine inside.nonpos resolved hz nonneg fun t ht => ?_
    by_cases levels : s.LevelsAtMost k t.name
    case neg =>
      simp only [part, if_neg levels]
      exact List.sum_nonneg <| List.forall_mem_map.mpr fun c _ =>
        Constructor.variation_nonneg hz nonneg fun r _ _ => part_nonneg r
    case pos =>
      have same : t.constructors.map (·.variation z values h) = t.constructors.map (·.variation z values part) :=
        List.map_congr_left fun c hc => Constructor.variation_congr fun r hr =>
          (if_pos (levels.closed ht hc hr)).symm
      have taken := step t ht
      rw [settled t ht levels, sub_self, add_zero, same] at taken
      simp only [part, if_pos levels]
      exact taken.le
  intro T hT levels
  have := below T hT
  simp only [part, if_pos levels] at this
  exact le_antisymm this (up T)

-- A step settles one more level: there all that changes is one factor of a term.
theorem IsStep.settled (step : IsStep s z values h) (inside : Inside s z values) (resolved : s.Resolved)
    (rational : s.classify = .rational) (hz : 0 ≤ z) (nonneg : ∀ T, 0 ≤ values T) (up : ∀ T, 0 ≤ h T)
    (settled : Settled s z k values) : Settled s z (k + 1) fun T => values T + h T := by
  intro t ht levels
  have still := step.still_of_settled inside resolved hz nonneg up settled
  have terms : t.constructors.map (·.term z fun T => values T + h T) =
      t.constructors.map fun c => c.term z values + c.variation z values h := by
    refine List.map_congr_left fun c hc => ?_
    refine Constructor.term_add_of_single (single_of_rational resolved rational ht hc) fun r hr other => ?_
    have known := resolved.refs t ht c hc r hr
    have apart : ¬s.referenceGraph.Connected t.name r := by simp [← isOwn_iff ht known, other]
    exact still r known ((levels.reference ht hc hr).resolve_left apart)
  show values t.name + h t.name = _
  rw [terms, List.sum_map_add, step t ht]
  ring

theorem settled_zero : Settled s z 0 values := fun _ _ levels => absurd levels Digraph.not_levelsAtMost_zero

theorem settled_of_reached (resolved : s.Resolved) (rational : s.classify = .rational) (hz : 0 ≤ z)
    (reached : (ofSystem s).reached? LinearSystem.radius precision z k = some y) :
    ∃ values : String → ℝ, y = s.names.map values ∧ Rising s z values ∧ Settled s z k values := by
  induction k generalizing y
  case zero =>
    have ⟨values, hy, rising⟩ := rising_of_reached resolved hz reached
    exact ⟨values, hy, rising, settled_zero⟩
  case succ k hi =>
    have ⟨x, hx, goes⟩ := reached?_succ.mp reached
    obtain ⟨values, rfl, rising, settled⟩ := hi hx
    have ⟨inside, h, next, step, up, rising'⟩ := rising.goesOn resolved hz goes
    exact ⟨_, next, rising', step.settled inside resolved rational hz rising.nonneg up settled⟩

theorem Settled.getElem?_phi (settled : Settled s z k values) (resolved : s.Resolved) {i : Nat} {T : String}
    (hT : s.names[i]? = some T) (levels : s.LevelsAtMost k T) :
    ((ofSystem s).phi z (s.names.map values))[i]? = (s.names.map values)[i]? := by
  rw [Specification.names, List.getElem?_map, Option.map_eq_some_iff] at hT
  obtain ⟨t, ht, rfl⟩ := hT
  rw [phi_ofSystem resolved, Specification.names, List.getElem?_map, List.getElem?_map, List.getElem?_map, ht]
  exact congrArg some (settled t (List.mem_of_getElem? ht) levels).symm

theorem Rising.round_cases (rising : Rising s z values) (resolved : s.Resolved) (hz : 0 ≤ z) (precise : 0 ≤ precision) :
    (ofSystem s).round LinearSystem.radius precision z (s.names.map values) = .ends (some (s.names.map values)) ∨
    (ofSystem s).round LinearSystem.radius precision z (s.names.map values) = .ends none ∧
      1 ≤ LinearSystem.radius ((ofSystem s).jacobian z (s.names.map values)) ∨
    ∃ next, (ofSystem s).round LinearSystem.radius precision z (s.names.map values) = .goesOn next := by
  by_cases inside : Inside s z values
  case neg =>
    have outside := not_lt.mp inside
    exact .inr <| .inl ⟨by rw [round_eq, if_pos outside], outside⟩
  case pos =>
    have ⟨h, taken, _, up, _⟩ := rising.step inside resolved hz
    rw [round_of_step inside precise taken (List.forall_mem_map.mpr fun T _ => up T)]
    split
    · exact .inl rfl
    · exact .inr <| .inr ⟨_, rfl⟩

-- All types are settled after as many rounds as there are components, so that no round goes on from there.
theorem not_goesOn_of_rational (resolved : s.Resolved) (rational : s.classify = .rational) (hz : 0 ≤ z)
    (precise : 0 ≤ precision) (next : List ℝ)
    (reached : (ofSystem s).reached? LinearSystem.radius precision z s.componentCount = some y) :
    (ofSystem s).round LinearSystem.radius precision z y ≠ .goesOn next := by
  intro goes
  obtain ⟨values, rfl, _, settled⟩ := settled_of_reached resolved rational hz reached
  have solved : (ofSystem s).phi z (s.names.map values) = s.names.map values := by
    rw [phi_ofSystem resolved, Specification.names, List.map_map]
    exact List.map_congr_left fun t ht =>
      (settled t ht (levelsAtMost_componentCount resolved (name_mem_names ht))).symm
  have small := (residual_of_solved solved).trans_le (mul_nonneg precise (scale_pos (s.names.map values)).le)
  have inside := (round_goesOn goes).1
  rw [round_eq, if_neg inside.not_ge, if_pos small] at goes
  cases goes

-- The loop ends after so many rounds that went on: by the vector it is at, or because the guard does not let it pass.
structure EndsAt (s : Specification) (z precision : ℝ) (k : Nat) (y : List ℝ) (result : Option (List ℝ)) : Prop where
  reached : (ofSystem s).reached? LinearSystem.radius precision z k = some y
  ends    : (ofSystem s).round LinearSystem.radius precision z y = .ends result
  cause   : result = some y ∨ result = none ∧ 1 ≤ LinearSystem.radius ((ofSystem s).jacobian z y)

theorem endsAt_or_reached (resolved : s.Resolved) (hz : 0 ≤ z) (precise : 0 ≤ precision) (n : Nat) :
    (∃ k < n, ∃ y result, EndsAt s z precision k y result) ∨
      ∃ y, (ofSystem s).reached? LinearSystem.radius precision z n = some y := by
  induction n
  case zero      => exact .inr ⟨_, rfl⟩
  case succ n hi =>
    rcases hi with ⟨k, lt, ended⟩ | ⟨y, reached⟩
    · exact .inl ⟨k, lt.trans n.lt_succ_self, ended⟩
    · obtain ⟨values, rfl, rising⟩ := rising_of_reached resolved hz reached
      rcases rising.round_cases resolved hz precise with ends | ⟨ends, guard⟩ | ⟨next, goes⟩
      · exact .inl ⟨n, n.lt_succ_self, _, _, reached, ends, .inl rfl⟩
      · exact .inl ⟨n, n.lt_succ_self, _, _, reached, ends, .inr ⟨rfl, guard⟩⟩
      · exact .inr ⟨next, reached?_succ.mpr ⟨_, reached, goes⟩⟩

-- Every round that goes on settles one more level of components. So no more rounds go on than there are components, and
-- the loop ends by a vector or by the guard, before the rounds are used up.
theorem solve_rational {entries : List (Except Json Declaration)} {annotations : List (String × Json)}
    (declared : ofDeclarations entries annotations = .ok s) (rational : s.classify = .rational) (hz : 0 ≤ z)
    (precise : 0 < precision) :
    (∀ k (y : List ℝ), (ofSystem s).reached? LinearSystem.radius precision z k = some y →
      ∀ (i : Nat) T, s.names[i]? = some T → s.LevelsAtMost k T → ((ofSystem s).phi z y)[i]? = y[i]?) ∧
    ∃ k ≤ s.componentCount, ∃ y result, EndsAt s z precision k y result ∧
      ∀ maxiter, s.componentCount + 1 ≤ maxiter →
        (ofSystem s).solve LinearSystem.radius precision maxiter z = result := by
  have resolved := resolved declared
  refine ⟨fun k y reached i T hT levels => ?solved, ?ends⟩
  case solved =>
    obtain ⟨values, rfl, _, settled⟩ := settled_of_reached resolved rational hz reached
    exact settled.getElem?_phi resolved hT levels
  case ends =>
    rcases endsAt_or_reached resolved hz precise.le (s.componentCount + 1) with
      ⟨k, lt, y, result, ended⟩ | ⟨y, reached⟩
    · exact ⟨k, Nat.le_of_lt_succ lt, y, result, ended, fun maxiter enough =>
        solve_of_ends ended.reached ended.ends (lt.trans_le enough)⟩
    · have ⟨x, hx, goes⟩ := reached?_succ.mp reached
      exact absurd goes (not_goesOn_of_rational resolved rational hz precise.le y hx)

-- Marks stand below words.
theorem words_rounds : ofDeclarations wordEntries [] = .ok words ∧ words.classify = .rational ∧
    words.componentCount = 2 ∧ ∃ k ≤ 2, ∃ y result, EndsAt words (1 / 4) (1 / 1000) k y result ∧
      ∀ maxiter, 3 ≤ maxiter → (ofSystem words).solve LinearSystem.radius (1 / 1000) maxiter (1 / 4) = result := by
  have rational : words.classify = .rational := by decide +kernel
  have count : words.componentCount = 2 := by decide +kernel
  have ⟨_, ends⟩ := @solve_rational words (1 / 4) (1 / 1000) wordEntries [] rfl rational (by norm_num) (by norm_num)
  rw [count] at ends
  exact ⟨rfl, rational, count, ends⟩

end Equations

end BoltzmannSampling
