import Mathlib
import BoltzmannSampling.Proofs.Derivation.Basic
import BoltzmannSampling.Proofs.Structure.Basic

/-!
The structure of a derivation. Derivations of auxiliary types dissolve: their elements become children of the node
above, in order, and their atoms weigh in it. Structures drawn are compared with it up to the marks of their nodes.
-/

namespace BoltzmannSampling

namespace Structure

def unmarked : Structure → Structure
  | node _ n t w cs => node 0 n t w (cs.map unmarked)

theorem unmarked_node (m n t w cs) : (node m n t w cs).unmarked = node 0 n t w (cs.map unmarked) := by
  rw [unmarked]

theorem unmarked_unmarked (s : Structure) : s.unmarked.unmarked = s.unmarked := by
  induction s using Structure.induction
  case node m n t w cs hi =>
    rw [unmarked_node, unmarked_node, List.map_map]
    exact congrArg _ <| List.map_congr_left hi

theorem walk_unmarked (s : Structure) : s.unmarked.walk = s.walk.map unmarked := by
  induction s using Structure.induction
  case node m n t w cs hi =>
    rw [unmarked_node, walk_node, walk_node, List.map_cons, unmarked_node, List.flatMap_map, List.map_flatMap,
      List.flatMap_congr hi]

theorem unmarked_mem_walk {s node : Structure} (h : node ∈ s.walk) : node.unmarked ∈ s.unmarked.walk := by
  rw [walk_unmarked]
  exact List.mem_map_of_mem h

theorem typeName_unmarked : (s : Structure) → s.unmarked.typeName = s.typeName
  | node m n t w cs => by rw [unmarked_node, typeName, typeName]

theorem name_unmarked : (s : Structure) → s.unmarked.name = s.name
  | node m n t w cs => by rw [unmarked_node, name, name]

end Structure

namespace Derivation

def type : Derivation → TypeDef
  | node t _ _ => t

@[simp]
theorem type_node (t c parts) : (node t c parts).type = t := rfl

-- The atoms that a derivation adds to the node above it.
def atoms : Derivation → Nat
  | node t c parts => if t.isAuxiliary then c.size + (parts.map atoms).sum else 0

-- The children that a derivation adds to the node above it.
def children : Derivation → List Structure
  | node t c parts =>
    if t.isAuxiliary then parts.flatMap children
    else [.node 0 c.name t.name (c.size + (parts.map atoms).sum) (parts.flatMap children)]

def toStructure : Derivation → Structure
  | node t c parts => .node 0 c.name t.name (c.size + (parts.map atoms).sum) (parts.flatMap children)

variable {t : TypeDef} {c : Constructor Symbol} {parts : List Derivation} {d : Derivation}

theorem atoms_auxiliary (h : t.isAuxiliary = true) : (node t c parts).atoms = c.size + (parts.map atoms).sum := by
  rw [atoms, if_pos h]

theorem atoms_declared (h : d.type.isAuxiliary = false) : d.atoms = 0 := by
  cases d
  case node =>
    rw [atoms, if_neg]
    exact Bool.eq_false_iff.mp h

theorem children_auxiliary (h : t.isAuxiliary = true) : (node t c parts).children = parts.flatMap children := by
  rw [children, if_pos h]

theorem children_declared (h : d.type.isAuxiliary = false) : d.children = [d.toStructure] := by
  cases d
  case node =>
    rw [children, if_neg, toStructure]
    exact Bool.eq_false_iff.mp h

theorem toStructure_mem_children (h : d.type.isAuxiliary = false) : d.toStructure ∈ d.children := by
  rw [children_declared h]
  exact List.mem_singleton_self _

theorem unmarked_children {x : Structure} (h : x ∈ d.children) : x.unmarked = x := by
  induction d using Derivation.induction generalizing x
  case node t c parts hi =>
    have hp : ∀ x ∈ parts.flatMap children, x.unmarked = x := by
      intro x hx
      have ⟨p, hp, hx⟩ := List.mem_flatMap.mp hx
      exact hi p hp hx
    by_cases ha : t.isAuxiliary
    case pos =>
      rw [children_auxiliary ha] at h
      exact hp x h
    case neg =>
      rw [children_declared (by simpa using ha), List.mem_singleton] at h
      rw [h, toStructure, Structure.unmarked_node, List.map_congr_left hp, List.map_id']

theorem unmarked_toStructure (d : Derivation) : d.toStructure.unmarked = d.toStructure := by
  cases d
  case node t c parts =>
    rw [toStructure, Structure.unmarked_node]
    refine congrArg _ <| (List.map_congr_left fun x hx => ?_).trans (List.map_id' _)
    have ⟨_, _, hx⟩ := List.mem_flatMap.mp hx
    exact unmarked_children hx

end Derivation

namespace Specification

variable {s : Specification} {T : String} {d : Derivation}

theorem type_mem (h : d ∈ s.derivations T) : d.type ∈ s.types ∧ d.type.name = T := by
  cases d
  case node => exact (node_mem_derivations.mp h).1

-- Every node of a structure takes a constructor of a declared type.
theorem choice_of_mem_walk (h : d ∈ s.derivations T) {x y : Structure} (hx : x ∈ d.children) (hy : y ∈ x.walk) :
    ∃ u ∈ s.userTypes, u.name = y.typeName ∧ ∃ c ∈ u.constructors, c.name = y.name := by
  refine derivations_induction (motive := fun _ d => ∀ x ∈ d.children, ∀ y ∈ x.walk,
    ∃ u ∈ s.userTypes, u.name = y.typeName ∧ ∃ c ∈ u.constructors, c.name = y.name) ?_ h x hx y hy
  intro t c parts ht hc hp
  have below : ∀ x ∈ parts.flatMap Derivation.children, ∀ y ∈ x.walk,
      ∃ u ∈ s.userTypes, u.name = y.typeName ∧ ∃ c ∈ u.constructors, c.name = y.name := by
    intro x hx
    have ⟨p, hm, hx⟩ := List.mem_flatMap.mp hx
    have ⟨_, _, hi⟩ := hp.exists_left hm
    exact hi.2 x hx
  by_cases ha : t.isAuxiliary
  case pos =>
    rw [Derivation.children_auxiliary ha]
    exact below
  case neg =>
    rw [Derivation.children_declared (by simpa using ha)]
    intro x hx y hy
    rw [List.mem_singleton.mp hx, Derivation.toStructure, Structure.walk_node, List.mem_cons, List.mem_flatMap] at hy
    cases hy
    case inl hy =>
      rw [hy]
      exact ⟨t, List.mem_filter.mpr ⟨ht, by simpa using ha⟩, rfl, c, hc, rfl⟩
    case inr hy =>
      have ⟨z, hz, hy⟩ := hy
      exact below z hz y hy

end Specification

end BoltzmannSampling
