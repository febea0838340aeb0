import Mathlib
import BoltzmannSampling.Proofs.Checks
import BoltzmannSampling.Proofs.Derivation.ZeroSize
import BoltzmannSampling.Proofs.Numeric.Nilpotent
import BoltzmannSampling.Proofs.Tuning.Convexity

/-!
Newton's method at zero, for a system that the strict check accepts. The values stay zero outside the nullable types, so
that the entries of the Jacobian that are not zero are edges of the zero-size graph. As the graph has no cycles, the
Jacobian is nilpotent, and every step solves the equations of the types of one more depth.
-/

namespace BoltzmannSampling

namespace Equations

open Specification

variable {K : Type} [Field K] [LinearOrder K] {s : Specification} {values h : String → K}
  {t : TypeDef} {c : Constructor Symbol} {r T : String} {k : Nat}

def Supported (s : Specification) (values : String → K) : Prop := ∀ T ∉ s.nullable, values T = 0

-- Terms and cofactors vanish at zero unless the constructor has no atoms and its references are nullable.
theorem Supported.empty (supported : Supported s values) {w : K} {n : Nat} {refs : List String}
    (nonzero : w * 0 ^ n * (refs.map values).prod ≠ 0) : n = 0 ∧ ∀ r ∈ refs, r ∈ s.nullable := by
  constructor
  · by_contra hn
    exact nonzero (by simp [hn])
  · intro r hr
    by_contra outside
    exact right_ne_zero_of_mul nonzero <| List.prod_eq_zero_iff.mpr <| supported r outside ▸ List.mem_map_of_mem hr

theorem Supported.add (supported : Supported s values) (steps : Supported s h) :
    Supported s fun T => values T + h T :=
  fun T hT => (congrArg₂ (· + ·) (supported T hT) (steps T hT)).trans (add_zero 0)

theorem Supported.edge_of_cofactor (supported : Supported s values) (ht : t ∈ s.types) (hc : c ∈ t.constructors)
    (hr : r ∈ c.refs) (nonzero : c.cofactor 0 values r ≠ 0) : (s.zeroSizeGraph s.nullable).Edge t.name r :=
  have ⟨empty, others⟩ := supported.empty nonzero
  edge_of_erase ht hc empty hr others

theorem Supported.edge_of_entry (supported : Supported s values) (ht : t ∈ s.types) (nonzero : entry 0 values t T ≠ 0) :
    (s.zeroSizeGraph s.nullable).Edge t.name T := by
  have ⟨x, hx, nonzero⟩ : ∃ x ∈ t.constructors.map (·.partialBy 0 values T), x ≠ 0 := by
    by_contra! zero
    exact nonzero <| List.sum_eq_zero zero
  obtain ⟨c, hc, rfl⟩ := List.mem_map.mp hx
  rw [Constructor.partialBy, mul_assoc (c.refs.count T : K)] at nonzero
  have hr : T ∈ c.refs := by
    by_contra hn
    exact left_ne_zero_of_mul (left_ne_zero_of_mul nonzero) (by simp [List.count_eq_zero.mpr hn])
  refine supported.edge_of_cofactor ht hc hr fun zero => nonzero ?_
  rw [mul_assoc, ← Constructor.cofactor, zero, mul_zero]

theorem isNilpotent_jacobian (resolved : s.Resolved) (acyclic : s.Acyclic) (supported : Supported s values) :
    IsNilpotent (jacobianMatrix s 0 (s.names.map values)) := by
  let rank (i : Fin s.names.length) : Nat := s.depth s.names[i]
  have descends i j (nonzero : jacobianMatrix s 0 (s.names.map values) i j ≠ 0) : rank j < rank i := by
    have hi : (i : Nat) < s.types.length := i.isLt.trans_eq (List.length_map _)
    have he : jacobianMatrix s 0 (s.names.map values) i j = entry 0 values s.types[i] s.names[j] := by
      rw [jacobianMatrix, jacobian_ofSystem resolved]
      simp [LinearSystem.matrix, hi]
    have hn : s.names[i] = s.types[i].name := List.getElem_map _
    have edge := supported.edge_of_entry (List.getElem_mem hi) (he ▸ nonzero)
    exact depth_lt_of_edge resolved acyclic (hn ▸ edge)
  exact LinearSystem.isNilpotent_of_rank descends fun i => depth_lt_length acyclic (List.getElem_mem i.isLt)

theorem Supported.variation_eq_zero (supported : Supported s values) (ht : t ∈ s.types) (hc : c ∈ t.constructors)
    (still : ∀ r, (s.zeroSizeGraph s.nullable).Edge t.name r → h r = 0) : c.variation 0 values h = 0 :=
  Constructor.variation_eq_zero fun r hr nonzero => still r (supported.edge_of_cofactor ht hc hr nonzero)

theorem IsStep.supported (resolved : s.Resolved) (acyclic : s.Acyclic) (supported : Supported s values)
    (step : IsStep s 0 values h) (outside : ∀ T ∉ s.names, h T = 0) : Supported s h := by
  intro T
  by_cases hT : T ∈ s.names
  case neg => exact fun _ => outside T hT
  case pos =>
    refine edge_induction resolved acyclic (motive := fun T => T ∉ s.nullable → h T = 0) (fun t ht hi hn => ?_) T hT
    have variations : ∀ c ∈ t.constructors, c.variation 0 values h = 0 := by
      refine fun c hc => Constructor.variation_eq_zero fun r hr nonzero => ?_
      have ⟨empty, others⟩ := supported.empty nonzero
      refine hi r (edge_of_erase ht hc empty hr others) fun hm => hn <| nullable_of_refs ht hc empty fun q hq => ?_
      rcases List.mem_cons.mp <| (List.perm_cons_erase hr).mem_iff.mp hq with rfl | hq
      · exact hm
      · exact others q hq
    have terms : ∀ c ∈ t.constructors, c.term 0 values = 0 := by
      intro c hc
      by_contra nonzero
      have ⟨empty, all⟩ := supported.empty nonzero
      exact hn <| nullable_of_refs ht hc empty all
    rw [step t ht, supported t.name hn, List.sum_eq_zero (List.forall_mem_map.mpr variations),
      List.sum_eq_zero (List.forall_mem_map.mpr terms), sub_zero, add_zero]

-- The equations hold for the types of less depth.
def SolvedTo (s : Specification) (k : Nat) (values : String → K) : Prop :=
  ∀ t ∈ s.types, s.depth t.name < k → values t.name = (t.constructors.map (·.term 0 values)).sum

theorem IsStep.still (resolved : s.Resolved) (acyclic : s.Acyclic) (supported : Supported s values)
    (step : IsStep s 0 values h) (solved : SolvedTo s k values) : ∀ T ∈ s.names, s.depth T < k → h T = 0 := by
  refine edge_induction resolved acyclic fun t ht hi hd => ?_
  have variations : ∀ c ∈ t.constructors, c.variation 0 values h = 0 := fun c hc =>
    supported.variation_eq_zero ht hc fun r e => hi r e <| (depth_lt_of_edge resolved acyclic e).trans hd
  rw [step t ht, ← solved t ht hd, List.sum_eq_zero (List.forall_mem_map.mpr variations), sub_self, add_zero]

theorem IsStep.solvedTo (resolved : s.Resolved) (acyclic : s.Acyclic) (supported : Supported s values)
    (step : IsStep s 0 values h) (steps : Supported s h) (solved : SolvedTo s k values) :
    SolvedTo s (k + 1) fun T => values T + h T := by
  intro t ht hd
  have still : ∀ r, (s.zeroSizeGraph s.nullable).Edge t.name r → h r = 0 := fun r e =>
    step.still resolved acyclic supported solved r (edge_names resolved e).2 <|
      (depth_lt_of_edge resolved acyclic e).trans_le (Nat.lt_succ_iff.mp hd)
  have variations : ∀ c ∈ t.constructors, c.variation 0 values h = 0 := fun c hc =>
    supported.variation_eq_zero ht hc still
  have terms : ∀ c ∈ t.constructors, c.term 0 values = c.term 0 fun T => values T + h T := by
    intro c hc
    by_cases empty : c.size = 0 ∧ ∀ r ∈ c.refs, r ∈ s.nullable
    case pos =>
      have same : c.refs.map values = c.refs.map fun T => values T + h T := List.map_congr_left fun r hr => by
        have edge := edge_of_erase ht hc empty.1 hr fun q hq => empty.2 q (List.mem_of_mem_erase hq)
        rw [still r edge, add_zero]
      rw [Constructor.term, Constructor.term, same]
    case neg =>
      have vanishes {f : String → K} (hf : Supported s f) : c.term 0 f = 0 := of_not_not (mt hf.empty empty)
      rw [vanishes supported, vanishes (supported.add steps)]
  rw [← List.map_congr_left terms]
  simp only [step t ht, List.sum_eq_zero (List.forall_mem_map.mpr variations), zero_add, add_sub_cancel]

-- The values after so many steps.
structure Visited (s : Specification) (k : Nat) (values : String → K) : Prop extends Below s 0 values where
  supported : Supported s values
  solvedTo  : SolvedTo s k values

-- After as many steps as there are types, all equations hold.
theorem Visited.solved (resolved : s.Resolved) (acyclic : s.Acyclic) (visited : Visited s s.types.length values) :
    (ofSystem s).phi 0 (s.names.map values) = s.names.map values := by
  rw [phi_ofSystem resolved, Specification.names, List.map_map]
  refine List.map_congr_left fun t ht => (visited.solvedTo t ht ?_).symm
  exact (depth_lt_length acyclic (name_mem_names ht)).trans_eq (List.length_map _)

variable [IsStrictOrderedRing K]

-- A step from values that are at most what the right-hand sides give is not negative: the parts of a type that change
-- are at the ends of its edges.
theorem IsStep.nonneg (resolved : s.Resolved) (acyclic : s.Acyclic) (supported : Supported s values)
    (old : Below s 0 values) (step : IsStep s 0 values h) (outside : ∀ T ∉ s.names, h T = 0) (T : String) : 0 ≤ h T := by
  by_cases hT : T ∈ s.names
  case neg => exact (outside T hT).ge
  case pos =>
    refine edge_induction resolved acyclic (motive := fun T => 0 ≤ h T) (fun t ht up => ?_) T hT
    rw [step t ht]
    refine add_nonneg (List.sum_nonneg <| List.forall_mem_map.mpr fun c hc => ?_) (sub_nonneg.mpr (old.below t ht))
    exact Constructor.variation_nonneg le_rfl old.nonneg fun r hr nonzero =>
      up r (supported.edge_of_cofactor ht hc hr nonzero)

theorem visited_zero : Visited s 0 fun _ => (0 : K) where
  toBelow         := below_zero le_rfl
  supported _ _   := rfl
  solvedTo _ _ hd := absurd hd (Nat.not_lt_zero _)

theorem Visited.step (resolved : s.Resolved) (acyclic : s.Acyclic) (old : Visited s k values) :
    ∃ h : String → K, (ofSystem s).step? 0 (s.names.map values) = some (s.names.map h) ∧ (∀ T, 0 ≤ h T) ∧
      Visited s (k + 1) fun T => values T + h T := by
  have regular := (isNilpotent_jacobian resolved acyclic old.supported).isUnit_one_sub
  have ⟨h, taken, outside, step⟩ := step?_ofSystem resolved regular
  have up := step.nonneg resolved acyclic old.supported old.toBelow outside
  have steps := step.supported resolved acyclic old.supported outside
  exact ⟨h, taken, up,
    { toBelow   := old.toBelow.advance le_rfl step up
      supported := old.supported.add steps
      solvedTo  := step.solvedTo resolved acyclic old.supported steps old.solvedTo }⟩

theorem iterate?_visited (resolved : s.Resolved) (acyclic : s.Acyclic) (k : Nat) :
    ∃ values : String → K, (ofSystem s).iterate? 0 k = some (s.names.map values) ∧ Visited s k values := by
  induction k
  case zero =>
    refine ⟨fun _ => 0, ?_, visited_zero⟩
    simp [iterate?, ofSystem, order]
  case succ k hi =>
    obtain ⟨values, reached, visited⟩ := hi
    obtain ⟨h, taken, up, next⟩ := visited.step resolved acyclic
    refine ⟨fun T => values T + h T, ?_, next⟩
    rw [iterate?, reached, Option.bind_some, taken, Option.map_some, advance_map up]

end Equations

namespace Bracket

variable {α : Type} [Scalar α] {solve : α → Option (List α)} {precision : α}

theorem double_ne (rounds : Nat) (b : Bracket α) : double solve rounds b ≠ .error .noSolutionAtZero := by
  induction rounds generalizing b
  case zero => simp [double]
  case succ rounds hi =>
    rw [double]
    split
    · simp
    · exact hi _

theorem bisect_ne (rounds : Nat) (b : Bracket α) : bisect solve precision rounds b ≠ .error .noSolutionAtZero := by
  induction rounds generalizing b
  case zero =>
    rw [bisect]
    split <;> simp
  case succ rounds hi =>
    rw [bisect]
    split
    · simp
    · exact hi _

theorem locate_ne {y : List α} (h : solve (Scalar.ofNat 0) = some y) (maxiter : Nat) :
    locate solve precision maxiter ≠ .error .noSolutionAtZero := by
  intro he
  simp only [locate, h, Checks.bind_eq_error] at he
  obtain hd | ⟨b, -, hb | ⟨b', -, hp⟩⟩ := he
  · exact double_ne _ _ hd
  · exact bisect_ne _ _ hb
  · split at hp <;> cases hp

end Bracket

namespace Equations

open Specification

theorem singularity_ne {α : Type} [Scalar α] {e : Equations} {solve : α → Option (List α)} {y : List α}
    (h : solve (Scalar.ofNat 0) = some y) (candidate : Bracket α → Option (Point α)) (slack precision : α)
    (maxiter : Nat) : e.singularity solve candidate slack precision maxiter ≠ .error .noSolutionAtZero := by
  intro he
  rw [singularity] at he
  cases located : Bracket.locate solve precision maxiter
  case ok b =>
    rw [located] at he
    cases he
  case error fault =>
    rw [located] at he
    exact Bracket.locate_ne h maxiter (located.trans (congrArg _ (Except.error.inj he)))

theorem radius_zero {s : Specification} {values : String → ℝ}
    (h : IsNilpotent (jacobianMatrix s 0 (s.names.map values))) :
    LinearSystem.radius ((ofSystem s).jacobian 0 (s.names.map values)) = 0 :=
  LinearSystem.radius_of_isNilpotent (by simp [jacobian, order, ofSystem]) h

theorem Visited.steady {s : Specification} {k : Nat} {values : String → ℝ} (resolved : s.Resolved) (acyclic : s.Acyclic)
    (visited : Visited s k values) : (ofSystem s).Steady LinearSystem.radius 0 (s.names.map values) where
  inside := (radius_zero (isNilpotent_jacobian resolved acyclic visited.supported)).trans_lt one_pos
  step   :=
    have ⟨_, taken, up, _⟩ := visited.step resolved acyclic
    ⟨_, taken, List.forall_mem_map.mpr fun T _ => up T⟩

-- The least solution at zero is found, whatever the precision, with one iteration more than there are types.
theorem solve_zero {s : Specification} {checked : Checked} {entries : List (Except Json Declaration)}
    {annotations : List (String × Json)} (declared : ofDeclarations entries annotations = .ok s)
    (accepted : s.check false = .ok checked) {precision : ℝ} (precise : 0 < precision) {maxiter : Nat}
    (enough : s.types.length + 1 ≤ maxiter) :
    (∀ k, ∃ values : String → ℝ, (ofSystem s).iterate? 0 k = some (s.names.map values) ∧
      (∀ T ∈ s.names, T ∉ s.nullable → values T = 0) ∧
      IsNilpotent (jacobianMatrix s 0 (s.names.map values)) ∧
      LinearSystem.radius ((ofSystem s).jacobian 0 (s.names.map values)) = 0 ∧
      IsUnit (1 - jacobianMatrix s 0 (s.names.map values)) ∧
      ∃ step, (ofSystem s).step? 0 (s.names.map values) = some step ∧ ∀ x ∈ step, 0 ≤ x) ∧
    (∃ k ≤ s.types.length, ∃ values : String → ℝ, (ofSystem s).iterate? 0 k = some (s.names.map values) ∧
      (ofSystem s).solve LinearSystem.radius precision maxiter 0 = some (s.names.map values) ∧
      ∀ T ∈ s.names, T ∉ s.nullable → values T = 0) ∧
    ∀ candidate slack, (ofSystem s).singularity ((ofSystem s).solve LinearSystem.radius precision maxiter) candidate
      slack precision maxiter ≠ .error .noSolutionAtZero := by
  have resolved := resolved declared
  have acyclic := acyclic_of_check resolved accepted
  have iterates (k : Nat) : ∃ values : String → ℝ, (ofSystem s).iterate? 0 k = some (s.names.map values) ∧
      Visited s k values := iterate?_visited resolved acyclic k
  have steady (k : Nat) (y : List ℝ) (hy : (ofSystem s).iterate? 0 k = some y) :
      (ofSystem s).Steady LinearSystem.radius 0 y := by
    have ⟨values, reached, visited⟩ := iterates k
    exact Option.some.inj (reached.symm.trans hy) ▸ visited.steady resolved acyclic
  have solved (y : List ℝ) (hy : (ofSystem s).iterate? 0 s.types.length = some y) : (ofSystem s).phi 0 y = y := by
    have ⟨values, reached, visited⟩ := iterates s.types.length
    exact Option.some.inj (reached.symm.trans hy) ▸ visited.solved resolved acyclic
  have ⟨k, le, found, reached, ends⟩ := solve_reaches precise.le steady solved enough
  refine ⟨fun k => ?_, ?_, fun candidate slack => ?_⟩
  · have ⟨values, reached, visited⟩ := iterates k
    have nilpotent := isNilpotent_jacobian resolved acyclic visited.supported
    exact ⟨values, reached, fun T _ => visited.supported T, nilpotent, radius_zero nilpotent,
      nilpotent.isUnit_one_sub, (visited.steady resolved acyclic).step⟩
  · have ⟨values, reached', visited⟩ := iterates k
    obtain rfl := Option.some.inj (reached.symm.trans reached')
    exact ⟨k, le, values, reached', ends, fun T _ => visited.supported T⟩
  · have start : (ofSystem s).solve LinearSystem.radius precision maxiter (Scalar.ofNat 0) = some found := by
      rw [Scalar.ofNat_eq, Nat.cast_zero, ends]
    exact singularity_ne start candidate slack precision maxiter

theorem words_solve_zero : ofDeclarations wordEntries [] = .ok words ∧ (∃ checked, words.check false = .ok checked) ∧
    words.types.length + 1 = 3 ∧
    ∃ k ≤ 2, ∃ y, (ofSystem words).iterate? (0 : ℝ) k = some y ∧
      (ofSystem words).solve LinearSystem.radius (1 / 1000) 3 0 = some y := by
  have ⟨_, ⟨k, le, values, reached, ends, _⟩, _⟩ :=
    @solve_zero words _ wordEntries [] rfl rfl (1 / 1000) (by norm_num) 3 le_rfl
  exact ⟨rfl, ⟨_, rfl⟩, rfl, k, le, words.names.map values, reached, ends⟩

end Equations

end BoltzmannSampling
