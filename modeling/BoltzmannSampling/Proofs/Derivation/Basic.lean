import Mathlib
import BoltzmannSampling.Proofs.Correspondence
import BoltzmannSampling.Proofs.Specification.Resolved

/-!
Derivation trees: a constructor of a type with a derivation for each of its references, auxiliary types included.
-/

namespace BoltzmannSampling

inductive Derivation where
  | node (type : TypeDef) (constructor : Constructor Symbol) (parts : List Derivation)

namespace Derivation

def typeName : Derivation → String
  | node t _ _ => t.name

-- The atoms of all constructors together.
def size : Derivation → Nat
  | node _ c parts => c.size + (parts.map size).sum

-- The number of constructors.
def length : Derivation → Nat
  | node _ _ parts => 1 + (parts.map length).sum

theorem size_node (t c parts) : (node t c parts).size = c.size + (parts.map size).sum := by
  rw [size]

theorem length_node (t c parts) : (node t c parts).length = 1 + (parts.map length).sum := by
  rw [length]

theorem induction {motive : Derivation → Prop}
    (node : ∀ t c parts, (∀ d ∈ parts, motive d) → motive (.node t c parts)) : (d : Derivation) → motive d
  | .node t c parts => node t c parts fun d _ => induction node d

end Derivation

namespace Specification

inductive Derives (s : Specification) : Derivation → Prop
  | node {t c parts} (type : t ∈ s.types) (choice : c ∈ t.constructors)
      (refs : parts.map Derivation.typeName = c.refs) (below : ∀ d ∈ parts, Derives s d) :
      Derives s (.node t c parts)

def derivations (s : Specification) (T : String) : Set Derivation :=
  { d | s.Derives d ∧ d.typeName = T }

-- Derivations for types given in order.
abbrev Forest (s : Specification) : List String → List Derivation → Prop :=
  List.Forall₂ fun r d => d ∈ s.derivations r

variable {s : Specification} {T : String} {t : TypeDef} {c : Constructor Symbol} {parts : List Derivation}

theorem forest_iff {refs : List String} :
    s.Forest refs parts ↔ parts.map Derivation.typeName = refs ∧ ∀ d ∈ parts, s.Derives d := by
  induction parts generalizing refs
  case nil => cases refs <;> simp
  case cons d parts hi =>
    cases refs
    case nil => simp
    case cons r refs =>
      rw [Forest, List.forall₂_cons, ← Forest, hi, List.forall_mem_cons, List.map_cons, List.cons.injEq]
      constructor
      · rintro ⟨⟨hd, hr⟩, hs, hp⟩
        exact ⟨⟨hr, hs⟩, hd, hp⟩
      · rintro ⟨⟨hr, hs⟩, hd, hp⟩
        exact ⟨⟨hd, hr⟩, hs, hp⟩

theorem node_mem_derivations : .node t c parts ∈ s.derivations T ↔
    (t ∈ s.types ∧ t.name = T) ∧ c ∈ t.constructors ∧ s.Forest c.refs parts := by
  rw [forest_iff]
  constructor
  · rintro ⟨⟨ht, hc, hr, hp⟩, hn⟩
    exact ⟨⟨ht, hn⟩, hc, hr, hp⟩
  · rintro ⟨⟨ht, hn⟩, hc, hr, hp⟩
    exact ⟨.node ht hc hr hp, hn⟩

theorem derivations_induction {motive : String → Derivation → Prop}
    (node : ∀ t c parts, t ∈ s.types → c ∈ t.constructors →
      List.Forall₂ (fun r d => d ∈ s.derivations r ∧ motive r d) c.refs parts → motive t.name (.node t c parts))
    {d : Derivation} (h : d ∈ s.derivations T) : motive T d := by
  induction d using Derivation.induction generalizing T
  case node t c parts hi =>
    obtain ⟨⟨ht, rfl⟩, hc, hp⟩ := node_mem_derivations.mp h
    refine node t c parts ht hc <| List.forall₂_iff_get.mpr ⟨hp.length_eq, fun i _ hd => ?_⟩
    have := List.forall₂_iff_get.mp hp |>.2 i ‹_› hd
    exact ⟨this, hi _ (List.get_mem ..) this⟩

end Specification

end BoltzmannSampling
