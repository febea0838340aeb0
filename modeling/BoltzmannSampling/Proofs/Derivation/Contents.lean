import Mathlib
import BoltzmannSampling.Proofs.Derivation.Auxiliary
import BoltzmannSampling.Proofs.Specification.Components

/-!
The types of the nodes of derivations. The references lead to them from the type of the derivation; and if every type
has a derivation, a path of references is the way to a node of some derivation, whose other parts are completed.
-/

namespace BoltzmannSampling

namespace Derivation

-- Some node of a derivation is of a type.
inductive Contains (T : String) : Derivation → Prop
  | root {t c parts} (name : t.name = T) : Contains T (.node t c parts)
  | part {t c parts d} (member : d ∈ parts) (below : Contains T d) : Contains T (.node t c parts)

variable {d : Derivation} {x y : Structure} {T : String}

theorem contains_of_mem_walk (hx : x ∈ d.children) (hy : y ∈ x.walk) : d.Contains y.typeName := by
  induction d using Derivation.induction generalizing x
  case node t c parts hi =>
    have below {x : Structure} (hx : x ∈ parts.flatMap children) (hy : y ∈ x.walk) :
        (node t c parts).Contains y.typeName := by
      have ⟨p, hp, hx⟩ := List.mem_flatMap.mp hx
      exact .part hp (hi p hp hx hy)
    by_cases ha : t.isAuxiliary
    case pos =>
      rw [children_auxiliary ha] at hx
      exact below hx hy
    case neg =>
      rw [children_declared (by simpa using ha), List.mem_singleton] at hx
      rw [hx, toStructure, Structure.walk_node, List.mem_cons, List.mem_flatMap] at hy
      rcases hy with rfl | ⟨z, hz, hy⟩
      · exact .root rfl
      · exact below hz hy

end Derivation

namespace Specification

variable {s : Specification} {d : Derivation} {a b T : String}

theorem leadsTo_of_contains (hd : d ∈ s.derivations a) (h : d.Contains T) : s.referenceGraph.LeadsTo a T := by
  refine derivations_induction (motive := fun a d => d.Contains T → s.referenceGraph.LeadsTo a T) ?_ hd h
  rintro t c parts ht hc hp (⟨name⟩ | ⟨member, below⟩)
  · exact name ▸ .refl
  · have ⟨r, hr, _, hi⟩ := hp.exists_left member
    exact (leadsTo_of_ref ht hc hr).trans (hi below)

-- From the end of the path to its beginning, a node is put above the derivation and beside derivations of the types of
-- its other references.
theorem exists_contains (resolved : s.Resolved) (productive : ∀ r ∈ s.names, (s.derivations r).Nonempty)
    (leads : s.referenceGraph.LeadsTo a T) (known : T ∈ s.names) : ∃ d ∈ s.derivations a, d.Contains T := by
  induction leads using Relation.ReflTransGen.head_induction_on
  case refl =>
    have ⟨d, hd⟩ := productive T known
    obtain ⟨t, c, parts⟩ := d
    exact ⟨_, hd, .root (node_mem_derivations.mp hd).1.2⟩
  case head a b e _ hi =>
    have ⟨d, hd, below⟩ := hi
    have ⟨t, ht, name, c, hc, hb⟩ := referenceGraph_edge.mp e
    have refs := resolved.refs t ht c hc
    obtain ⟨pre, post, split⟩ := List.append_of_mem hb
    rw [split] at refs
    have complete (rs : List String) (hrs : ∀ r ∈ rs, r ∈ pre ++ b :: post) : ∃ parts, s.Forest rs parts :=
      List.Forall₂.of_exists fun r hr => productive r (refs r (hrs r hr))
    have ⟨ps, hps⟩ := complete pre fun r hr => List.mem_append_left _ hr
    have ⟨qs, hqs⟩ := complete post fun r hr => List.mem_append_right _ (List.mem_cons_of_mem _ hr)
    have forest : s.Forest c.refs (ps ++ d :: qs) := by
      rw [split]
      exact List.rel_append hps (.cons hd hqs)
    refine ⟨.node t c (ps ++ d :: qs), node_mem_derivations.mpr ⟨⟨ht, name⟩, hc, forest⟩, .part ?_ below⟩
    exact List.mem_append_right _ List.mem_cons_self

end Specification

end BoltzmannSampling
