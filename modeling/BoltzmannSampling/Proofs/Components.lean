import Mathlib
import BoltzmannSampling.Proofs.Assoc
import BoltzmannSampling.Proofs.Digraph

/-!
Strongly connected components. Nodes have the same representative if and only if each leads to the other. Components
stand in levels, one below the other, and there are no more levels than components.
-/

namespace BoltzmannSampling

namespace Digraph

variable {ν : Type} {g : Digraph ν} {a b c : ν} {k : Nat}

def LeadsTo (g : Digraph ν) : ν → ν → Prop := Relation.ReflTransGen g.Edge

def Connected (g : Digraph ν) (a b : ν) : Prop := g.LeadsTo a b ∧ g.LeadsTo b a

-- One node leads to the other, but not the other way around: the component of the other is on a lower level.
def Above (g : Digraph ν) (a b : ν) : Prop := g.LeadsTo a b ∧ ¬g.LeadsTo b a

-- From the component of a node on there are at most so many levels: no more nodes are each above all that follow.
def LevelsAtMost (g : Digraph ν) (k : Nat) (a : ν) : Prop :=
  ∀ lower : List ν, (a :: lower).Pairwise g.Above → (a :: lower).length ≤ k

theorem Connected.symm (h : g.Connected a b) : g.Connected b a := ⟨h.2, h.1⟩

theorem Connected.trans (h : g.Connected a b) (h' : g.Connected b c) : g.Connected a c :=
  ⟨h.1.trans h'.1, h'.2.trans h.2⟩

theorem Above.trans (h : g.Above a b) (h' : g.Above b c) : g.Above a c :=
  ⟨h.1.trans h'.1, fun back => h'.2 (back.trans h.1)⟩

theorem Connected.above (h : g.Connected a b) (h' : g.Above b c) : g.Above a c :=
  ⟨h.1.trans h'.1, fun back => h'.2 (back.trans h.1)⟩

theorem Above.connected (h : g.Above a b) (h' : g.Connected b c) : g.Above a c :=
  ⟨h.1.trans h'.1, fun back => h.2 (h'.1.trans back)⟩

-- The other nodes of a component have the same levels below them.
theorem LevelsAtMost.connected (h : g.LevelsAtMost k a) (hab : g.Connected a b) : g.LevelsAtMost k b := by
  intro lower chain
  have ⟨first, rest⟩ := List.pairwise_cons.mp chain
  refine h lower (List.pairwise_cons.mpr ⟨fun x hx => ?_, rest⟩)
  exact ⟨hab.1.trans (first x hx).1, fun back => (first x hx).2 (back.trans hab.1)⟩

theorem LevelsAtMost.below (h : g.LevelsAtMost (k + 1) a) (hab : g.Above a b) : g.LevelsAtMost k b := by
  intro lower chain
  have first : ∀ x ∈ b :: lower, g.Above a x := List.forall_mem_cons.mpr
    ⟨hab, fun x hx => hab.trans ((List.pairwise_cons.mp chain).1 x hx)⟩
  exact Nat.le_of_succ_le_succ <| h (b :: lower) (List.pairwise_cons.mpr ⟨first, chain⟩)

theorem LevelsAtMost.mono {l : Nat} (h : g.LevelsAtMost k a) (le : k ≤ l) : g.LevelsAtMost l a :=
  fun lower chain => (h lower chain).trans le

theorem not_levelsAtMost_zero : ¬g.LevelsAtMost 0 a := fun h =>
  absurd (h [] (List.pairwise_singleton ..)) (by simp)

variable [BEq ν]

-- One node for each component.
def representatives (g : Digraph ν) : List ν := (g.components.map (·.2)).eraseDups

def connects (g : Digraph ν) (a b : ν) : Bool := (g.reachable [a]).contains b && (g.reachable [b]).contains a

-- The first node that is connected with a node.
def representative (g : Digraph ν) (a : ν) : ν := (g.nodes.find? (g.connects a)).getD a

theorem components_eq (g : Digraph ν) : g.components = g.nodes.map fun a => (a, g.representative a) := by
  have unfolded (a : ν) :
      g.connects a = fun x => (g.reachable [a]).contains x && (g.reachable [x]).contains a := rfl
  simp [components, representative, unfolded, List.find?_map, Option.map_map, Function.comp_def]

variable [LawfulBEq ν]

theorem connects_iff : g.connects a b ↔ g.Connected a b := by
  simp [connects, Connected, LeadsTo, mem_reachable]

theorem find?_connects (hb : b ∈ g.nodes) (h : g.Connected a b) :
    ∃ r, g.nodes.find? (g.connects a) = some r ∧ g.Connected a r := by
  have ⟨r, hr⟩ := Option.isSome_iff_exists.mp <| List.find?_isSome.mpr ⟨b, hb, connects_iff.mpr h⟩
  exact ⟨r, hr, connects_iff.mp (List.find?_some hr)⟩

theorem connected_representative (ha : a ∈ g.nodes) : g.Connected a (g.representative a) := by
  have ⟨r, found, connected⟩ := find?_connects ha ⟨.refl, .refl⟩
  rwa [representative, found]

theorem representative_eq_iff (ha : a ∈ g.nodes) (hb : b ∈ g.nodes) :
    g.representative a = g.representative b ↔ g.Connected a b := by
  constructor
  · intro h
    exact (connected_representative ha).trans (h ▸ (connected_representative hb).symm)
  · intro h
    have same : g.connects b = g.connects a := by
      funext x
      rw [Bool.eq_iff_iff, connects_iff, connects_iff]
      exact ⟨h.trans, h.symm.trans⟩
    have ⟨r, found, _⟩ := find?_connects hb h
    rw [representative, representative, same, found]
    rfl

theorem get?_components (distinct : g.nodes.Nodup) (ha : a ∈ g.nodes) :
    Assoc.get? g.components a = some (g.representative a) := by
  have distinct : (g.nodes.map id).Nodup := by rwa [List.map_id]
  rw [components_eq]
  exact Assoc.get?_map distinct g.representative ha

-- Each level has a component of its own.
theorem levelsAtMost_representatives (closed : ∀ a b, g.Edge a b → b ∈ g.nodes) (ha : a ∈ g.nodes) :
    g.LevelsAtMost g.representatives.length a := by
  intro lower chain
  have leads {x : ν} (p : g.LeadsTo a x) : x ∈ g.nodes := by
    cases p
    case refl     => exact ha
    case tail _ e => exact closed _ _ e
  have nodes : ∀ x ∈ a :: lower, x ∈ g.nodes := List.forall_mem_cons.mpr
    ⟨ha, fun x hx => leads ((List.pairwise_cons.mp chain).1 x hx).1⟩
  have distinct : ((a :: lower).map g.representative).Nodup := by
    refine List.pairwise_map.mpr <| chain.imp_of_mem fun hx hy above same => ?_
    exact above.2 ((representative_eq_iff (nodes _ hx) (nodes _ hy)).mp same).2
  have subset : (a :: lower).map g.representative ⊆ g.representatives := by
    refine List.forall_mem_map.mpr fun x hx => ?_
    rw [representatives, List.mem_eraseDups, components_eq, List.map_map]
    exact List.mem_map_of_mem (f := g.representative) (nodes x hx)
  exact (List.length_map g.representative).symm.trans_le (List.Nodup.subperm distinct subset).length_le

end Digraph

end BoltzmannSampling
