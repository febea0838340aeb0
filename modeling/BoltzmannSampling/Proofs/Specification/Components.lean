import Mathlib
import BoltzmannSampling.Proofs.Components
import BoltzmannSampling.Proofs.Specification.Resolved
import BoltzmannSampling.Specification.Check

/-!
The components of the reference graph. A reference stays in the component of its type or leads a level down, and no
constructor of a rational system refers more than once into its own component.
-/

namespace BoltzmannSampling

namespace Specification

variable {s : Specification} {t : TypeDef} {c : Constructor Symbol} {a b r : String} {k : Nat}

theorem mem_referencesOf {names : List String} :
    (r, names) ∈ referencesOf t ↔ (∃ c ∈ t.constructors, r ∈ c.refs) ∧
      names = (t.constructors.filter (·.refs.contains r)).map (·.name) := by
  simp only [referencesOf, List.mem_map, List.mem_eraseDups, List.mem_flatMap, Constructor.targets, Prod.mk.injEq]
  constructor
  · rintro ⟨_, used, rfl, rfl⟩
    exact ⟨used, rfl⟩
  · rintro ⟨used, rfl⟩
    exact ⟨r, used, rfl, rfl⟩

theorem referenceGraph_edge : s.referenceGraph.Edge a b ↔
    ∃ t ∈ s.types, t.name = a ∧ ∃ c ∈ t.constructors, b ∈ c.refs := by
  simp only [Digraph.Edge, referenceGraph, references, List.mem_map, List.mem_flatMap]
  constructor
  · rintro ⟨_, ⟨t, ht, ⟨r, names⟩, hr, rfl⟩, he⟩
    cases he
    exact ⟨t, ht, rfl, (mem_referencesOf.mp hr).1⟩
  · rintro ⟨t, ht, rfl, used⟩
    exact ⟨_, ⟨t, ht, _, mem_referencesOf.mpr ⟨used, rfl⟩, rfl⟩, rfl⟩

theorem known_of_leadsTo (resolved : s.Resolved) (known : a ∈ s.names) (leads : s.referenceGraph.LeadsTo a b) :
    b ∈ s.names := by
  cases leads
  case refl     => exact known
  case tail _ e =>
    have ⟨t, ht, _, c, hc, hr⟩ := referenceGraph_edge.mp e
    exact resolved.refs t ht c hc b hr

-- The types whose components are on so many levels at most, those below included.
def LevelsAtMost (s : Specification) (k : Nat) (T : String) : Prop := s.referenceGraph.LevelsAtMost k T

def componentCount (s : Specification) : Nat := (s.components.map (·.2)).eraseDups.length

theorem levelsAtMost_componentCount (resolved : s.Resolved) {T : String} (hT : T ∈ s.names) :
    s.LevelsAtMost s.componentCount T := by
  refine Digraph.levelsAtMost_representatives (fun a b e => ?_) hT
  have ⟨t, ht, _, c, hc, hr⟩ := referenceGraph_edge.mp e
  exact resolved.refs t ht c hc b hr

theorem leadsTo_of_ref (ht : t ∈ s.types) (hc : c ∈ t.constructors) (hr : r ∈ c.refs) :
    s.referenceGraph.LeadsTo t.name r :=
  .single (referenceGraph_edge.mpr ⟨t, ht, rfl, c, hc, hr⟩)

theorem above_or_connected (ht : t ∈ s.types) (hc : c ∈ t.constructors) (hr : r ∈ c.refs) :
    s.referenceGraph.Connected t.name r ∨ s.referenceGraph.Above t.name r := by
  by_cases back : s.referenceGraph.LeadsTo r t.name
  case pos => exact .inl ⟨leadsTo_of_ref ht hc hr, back⟩
  case neg => exact .inr ⟨leadsTo_of_ref ht hc hr, back⟩

-- No more types are each above all that follow than there are components.
theorem length_le_componentCount (resolved : s.Resolved) {types : List String} (known : ∀ T ∈ types, T ∈ s.names)
    (descends : types.Pairwise s.referenceGraph.Above) : types.length ≤ s.componentCount := by
  cases types
  case nil          => exact Nat.zero_le _
  case cons T lower => exact levelsAtMost_componentCount resolved (known T List.mem_cons_self) lower descends

-- A reference stays in the component or leads a level down.
theorem LevelsAtMost.reference (levels : s.LevelsAtMost (k + 1) t.name) (ht : t ∈ s.types) (hc : c ∈ t.constructors)
    (hr : r ∈ c.refs) : s.referenceGraph.Connected t.name r ∨ s.LevelsAtMost k r := by
  rcases above_or_connected ht hc hr with same | below
  · exact .inl same
  · exact .inr (levels.below below)

theorem LevelsAtMost.closed (levels : s.LevelsAtMost k t.name) (ht : t ∈ s.types) (hc : c ∈ t.constructors)
    (hr : r ∈ c.refs) : s.LevelsAtMost k r := by
  cases k
  case zero   => exact absurd levels Digraph.not_levelsAtMost_zero
  case succ k =>
    rcases levels.reference ht hc hr with same | below
    · exact levels.connected same
    · exact below.mono k.le_succ

def isOwn (s : Specification) (t : TypeDef) (r : String) : Bool :=
  s.referenceGraph.representative r == s.referenceGraph.representative t.name

theorem isOwn_iff (ht : t ∈ s.types) (hr : r ∈ s.names) : s.isOwn t r ↔ s.referenceGraph.Connected t.name r := by
  have symm : s.referenceGraph.Connected r t.name ↔ s.referenceGraph.Connected t.name r := ⟨.symm, .symm⟩
  rw [isOwn, beq_iff_eq, Digraph.representative_eq_iff hr (name_mem_names ht), symm]

-- One reference at most of a constructor of a rational system stays in the component.
theorem single_of_rational (resolved : s.Resolved) (rational : s.classify = .rational) (ht : t ∈ s.types)
    (hc : c ∈ t.constructors) : (c.refs.filter (s.isOwn t)).length ≤ 1 := by
  have arities : s.recursiveArity.all (·.2 ≤ 1) = true := by
    by_contra h
    rw [classify, if_neg h] at rational
    cases rational
  have arity := List.all_eq_true.mp arities _ (List.mem_map_of_mem (mem_productions.mpr ⟨ht, hc⟩))
  have component {T : String} (hT : T ∈ s.names) :
      Assoc.get? s.components T = some (s.referenceGraph.representative T) :=
    Digraph.get?_components resolved.names hT
  have same : c.refs.filter (fun r => Assoc.get? s.components r == Assoc.get? s.components t.name) =
      c.refs.filter (s.isOwn t) := by
    refine List.filter_congr fun r hr => ?_
    rw [component (resolved.refs t ht c hc r hr), component (name_mem_names ht), isOwn]
    rfl
  rw [← same]
  simpa using arity

end Specification

end BoltzmannSampling
