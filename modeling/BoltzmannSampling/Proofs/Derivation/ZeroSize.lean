import Mathlib
import BoltzmannSampling.Proofs.Derivation.WellFounded

/-!
The zero-size graph of a system that the strict check accepts. It has no cycles, and hence every type has a depth: how
many types lie on the paths from it. Each edge leads to a type of less depth.
-/

namespace BoltzmannSampling

namespace Specification

variable {s : Specification} {t : TypeDef} {c : Constructor Symbol} {a b r T : String}

theorem nullable_of_refs (ht : t ∈ s.types) (hc : c ∈ t.constructors) (empty : c.size = 0)
    (h : ∀ r ∈ c.refs, r ∈ s.nullable) : t.name ∈ s.nullable := by
  have ⟨parts, hp, hs⟩ := exists_empty_parts h
  refine mem_nullable.mpr ⟨.node t c parts, node_mem_derivations.mpr ⟨⟨ht, rfl⟩, hc, hp⟩, ?_⟩
  rw [Derivation.size_node, empty, hs]

theorem edge_of_erase (ht : t ∈ s.types) (hc : c ∈ t.constructors) (empty : c.size = 0) (hr : r ∈ c.refs)
    (h : ∀ q ∈ c.refs.erase r, q ∈ s.nullable) : (s.zeroSizeGraph s.nullable).Edge t.name r := by
  have ⟨pre, post, _, he, erased⟩ := List.exists_erase_eq hr
  exact zeroSizeGraph_edge.mpr ⟨t, c, ⟨ht, rfl⟩, hc, empty, pre, post, he, erased ▸ h⟩

theorem edge_names (resolved : s.Resolved) (e : (s.zeroSizeGraph s.nullable).Edge a b) : a ∈ s.names ∧ b ∈ s.names := by
  have ⟨t, c, ⟨ht, hn⟩, hc, _, pre, post, he, _⟩ := zeroSizeGraph_edge.mp e
  exact ⟨hn ▸ name_mem_names ht, resolved.refs t ht c hc b (by simp [he])⟩

def Acyclic (s : Specification) : Prop := ∀ a, ¬Relation.TransGen (s.zeroSizeGraph s.nullable).Edge a a

theorem acyclic_of_check (resolved : s.Resolved) {checked : Checked} (h : s.check false = .ok checked) : s.Acyclic := by
  intro a p
  have sound := check_strict.mp ⟨checked, h⟩
  have ha : a ∈ s.names :=
    have ⟨_, e, _⟩ := Relation.TransGen.head'_iff.mp p
    (edge_names resolved e).1
  refine (sound a ha).2 <| mem_zeroSizeCyclic.mpr ⟨⟨ha, (sound a ha).1⟩, p.lift id fun x y e => ⟨e, ?_, ?_⟩⟩
  · exact (sound x (edge_names resolved e).1).1
  · exact (sound y (edge_names resolved e).2).1

def below (s : Specification) (T : String) : Set String :=
  { b | b ∈ s.names ∧ Relation.TransGen (s.zeroSizeGraph s.nullable).Edge T b }

noncomputable def depth (s : Specification) (T : String) : Nat := (s.below T).ncard

theorem below_finite : (s.below T).Finite := (List.finite_toSet s.names).subset fun _ h => h.1

theorem depth_lt_of_edge (resolved : s.Resolved) (acyclic : s.Acyclic) (e : (s.zeroSizeGraph s.nullable).Edge a b) :
    s.depth b < s.depth a := by
  refine Set.ncard_lt_ncard ⟨fun x ⟨hn, p⟩ => ⟨hn, p.head e⟩, fun h => ?_⟩ below_finite
  exact acyclic b (h ⟨(edge_names resolved e).2, .single e⟩).2

-- What passes from the ends of the edges of a type to the type holds of all types.
theorem edge_induction (resolved : s.Resolved) (acyclic : s.Acyclic) {motive : String → Prop}
    (step : ∀ t ∈ s.types, (∀ r, (s.zeroSizeGraph s.nullable).Edge t.name r → motive r) → motive t.name) :
    ∀ T ∈ s.names, motive T := by
  intro T hT
  induction hn : s.depth T using Nat.strong_induction_on generalizing T
  case h n hi =>
    obtain ⟨t, ht, rfl⟩ := mem_names.mp hT
    exact step t ht fun r e => hi _ (hn ▸ depth_lt_of_edge resolved acyclic e) r (edge_names resolved e).2 rfl

theorem depth_lt_length (acyclic : s.Acyclic) (ha : a ∈ s.names) : s.depth a < s.names.length := by
  have strict : s.below a ⊂ { b | b ∈ s.names } := ⟨fun _ h => h.1, fun h => acyclic a (h ha).2⟩
  have number : { b | b ∈ s.names }.ncard ≤ s.names.length := by
    rw [← List.coe_toFinset, Set.ncard_coe_finset]
    exact s.names.toFinset_card_le
  exact (Set.ncard_lt_ncard strict (List.finite_toSet s.names)).trans_le number

end Specification

end BoltzmannSampling
