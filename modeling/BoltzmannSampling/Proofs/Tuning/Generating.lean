import Mathlib
import BoltzmannSampling.Proofs.Tuning.Law

/-!
The equations of a system and its derivations. Applied `k` times to zero, the right-hand sides give for every type the
polynomial of its derivations of height at most `k`, each with its weights and with `z` to its size. The exponents of a
term do not know the order of the references, but the product over them expands to one summand for every choice of
derivations in that order.
-/

namespace BoltzmannSampling

namespace Derivation

-- The number of constructors on a longest branch.
def height : Derivation → Nat
  | node _ _ parts => (parts.map height).foldr max 0 + 1

theorem height_pos : (d : Derivation) → 0 < d.height
  | node .. => by simp [height]

theorem height_node_le {t c parts} {k : Nat} : (node t c parts).height ≤ k + 1 ↔ ∀ d ∈ parts, d.height ≤ k := by
  have foldr_le (ns : List Nat) : ns.foldr max 0 ≤ k ↔ ∀ n ∈ ns, n ≤ k := by
    induction ns
    case nil          => simp
    case cons n ns hi => rw [List.foldr_cons, max_le_iff, hi, List.forall_mem_cons]
  rw [height, Nat.add_le_add_iff_right, foldr_le, List.forall_mem_map]

theorem weight_node (t c parts) :
    (node t c parts).weight = Scalar.ofFloat c.weight * (parts.map weight).prod :=
  product_node _ t c parts

-- The monomial of a derivation, where `z` has a value.
def mass (z : ℚ) (d : Derivation) : ℚ := d.weight * z ^ d.size

theorem mass_node (z : ℚ) (t c parts) :
    (node t c parts).mass z = Scalar.ofFloat c.weight * z ^ c.size * (parts.map (mass z)).prod := by
  have masses : (parts.map (mass z)).prod = (parts.map weight).prod * z ^ (parts.map size).sum := by
    induction parts
    case nil => simp
    case cons d ds hi =>
      simp only [List.map_cons, List.prod_cons, List.sum_cons, pow_add, hi, mass]
      exact mul_mul_mul_comm ..
  rw [mass, weight_node, size_node, pow_add, masses, mul_mul_mul_comm]

end Derivation

-- The lists that take one element from each of some finite sets, in order.
def Correspondence.lists {α β : Type} (choices : α → Finset β) : List α → Finset (List β)
  | []      => {[]}
  | x :: xs => (choices x ×ˢ lists choices xs).map ⟨fun p => p.1 :: p.2, fun _ _ h => by simpa [Prod.ext_iff] using h⟩

namespace Correspondence

variable {α β : Type} {choices : α → Finset β} {xs : List α}

theorem mem_lists {ys : List β} : ys ∈ lists choices xs ↔ List.Forall₂ (fun x y => y ∈ choices x) xs ys := by
  induction xs generalizing ys
  case nil => simp [lists]
  case cons x xs hi =>
    cases ys
    case nil       => simp [lists]
    case cons y ys =>
      rw [lists, Finset.mem_map, List.forall₂_cons, ← hi]
      constructor
      · rintro ⟨p, hp, he⟩
        cases he
        exact Finset.mem_product.mp hp
      · exact fun ⟨hy, hs⟩ => ⟨(y, ys), Finset.mk_mem_product hy hs, rfl⟩

-- A product of sums is a sum of products.
theorem sum_lists (f : β → ℚ) :
    ∑ ys ∈ lists choices xs, (ys.map f).prod = (xs.map fun x => ∑ y ∈ choices x, f y).prod := by
  induction xs
  case nil => simp [lists]
  case cons x xs hi =>
    rw [lists, Finset.sum_map, Finset.sum_product, List.map_cons, List.prod_cons, ← hi, Finset.sum_mul_sum]
    rfl

end Correspondence

namespace Specification

variable {s : Specification} {T : String} {k : Nat}

def derivationsWithin (s : Specification) (k : Nat) (T : String) : Set Derivation :=
  { d ∈ s.derivations T | d.height ≤ k }

theorem node_mem_derivationsWithin {t : TypeDef} {c : Constructor Symbol} {parts : List Derivation} :
    .node t c parts ∈ s.derivationsWithin (k + 1) T ↔ (t ∈ s.types ∧ t.name = T) ∧ c ∈ t.constructors ∧
      List.Forall₂ (fun r d => d ∈ s.derivationsWithin k r) c.refs parts := by
  have below (refs : List String) : List.Forall₂ (fun r d => d ∈ s.derivationsWithin k r) refs parts ↔
      s.Forest refs parts ∧ ∀ d ∈ parts, d.height ≤ k := by
    induction refs generalizing parts
    case nil => cases parts <;> simp
    case cons r refs hi =>
      cases parts
      case nil => simp
      case cons d parts =>
        rw [List.forall₂_cons, hi, Forest, List.forall₂_cons, List.forall_mem_cons, and_and_and_comm]
        rfl
  rw [below, derivationsWithin, Set.mem_sep_iff, node_mem_derivations, Derivation.height_node_le]
  tauto

theorem finite_derivationsWithin (s : Specification) (k : Nat) (T : String) : (s.derivationsWithin k T).Finite := by
  induction k generalizing T
  case zero => exact Set.finite_empty.subset fun d ⟨_, h⟩ => absurd h d.height_pos.not_ge
  case succ k hi =>
    have trees : (⋃ p ∈ { p | p ∈ s.productions }, Derivation.node p.1 p.2 ''
        { parts | List.Forall₂ (fun r d => d ∈ s.derivationsWithin k r) p.2.refs parts }).Finite :=
      (List.finite_toSet s.productions).biUnion fun p _ => (List.Forall₂.finite fun r _ => hi r).image _
    refine trees.subset fun | .node t c parts, hd => ?_
    have ⟨⟨ht, _⟩, hc, hp⟩ := node_mem_derivationsWithin.mp hd
    exact Set.mem_biUnion (mem_productions.mpr ⟨ht, hc⟩) ⟨parts, hp, rfl⟩

noncomputable def trees (s : Specification) (k : Nat) (T : String) : Finset Derivation :=
  (s.finite_derivationsWithin k T).toFinset

theorem mem_trees {d : Derivation} : d ∈ s.trees k T ↔ d ∈ s.derivationsWithin k T :=
  Set.Finite.mem_toFinset _

-- The weighted generating function of the derivations of bounded height.
noncomputable def generating (s : Specification) (k : Nat) (T : String) : Polynomial ℚ :=
  ∑ d ∈ s.trees k T, Polynomial.C d.weight * Polynomial.X ^ d.size

theorem eval_generating (z : ℚ) : (s.generating k T).eval z = ∑ d ∈ s.trees k T, d.mass z := by
  simp [generating, Polynomial.eval_finsetSum, Derivation.mass]

theorem Resolved.constructors_nodup (h : s.Resolved) {t : TypeDef} (ht : t ∈ s.types) : t.constructors.Nodup := by
  have hp : s.productions.Nodup := h.constructors.of_map
  have ht := (List.nodup_flatMap.mp hp).1 t ht
  exact ht.of_map

-- A tree of the next height is a constructor of its type over trees of this one.
theorem eval_generating_succ (resolved : s.Resolved) (z : ℚ) {t : TypeDef} (ht : t ∈ s.types) :
    (s.generating (k + 1) t.name).eval z =
      (t.constructors.map (·.term z fun r => (s.generating k r).eval z)).sum := by
  classical
  let node (c : Constructor Symbol) : List Derivation ↪ Derivation := ⟨.node t c, fun _ _ h => (Derivation.node.inj h).2.2⟩
  let nodes (c : Constructor Symbol) : Finset Derivation := (Correspondence.lists (s.trees k) c.refs).map (node c)
  have split : s.trees (k + 1) t.name = t.constructors.toFinset.biUnion nodes := by
    ext ⟨u, c, parts⟩
    simp only [mem_trees, node_mem_derivationsWithin, Finset.mem_biUnion, List.mem_toFinset, nodes, Finset.mem_map,
      Correspondence.mem_lists]
    constructor
    · rintro ⟨⟨hu, hn⟩, hc, hp⟩
      obtain rfl := resolved.type_unique hu ht hn
      exact ⟨c, hc, parts, hp, rfl⟩
    · rintro ⟨c', hc, parts', hp, he⟩
      cases he
      exact ⟨⟨ht, rfl⟩, hc, hp⟩
  have disjoint : (t.constructors.toFinset : Set (Constructor Symbol)).PairwiseDisjoint nodes := by
    refine fun c _ c' _ hc => Finset.disjoint_left.mpr fun d hd hd' => hc ?_
    obtain ⟨_, _, rfl⟩ := Finset.mem_map.mp hd
    obtain ⟨_, _, he⟩ := Finset.mem_map.mp hd'
    exact (Derivation.node.inj he).2.1.symm
  have sum (c : Constructor Symbol) : ∑ d ∈ nodes c, d.mass z = c.term z fun r => (s.generating k r).eval z := by
    simp only [eval_generating]
    rw [Constructor.term, ← Correspondence.sum_lists, Finset.sum_map, Finset.mul_sum]
    exact Finset.sum_congr rfl fun parts _ => Derivation.mass_node ..
  rw [eval_generating, split, Finset.sum_biUnion disjoint, Finset.sum_congr rfl fun c _ => sum c,
    List.sum_toFinset _ (resolved.constructors_nodup ht)]

theorem generating_zero (s : Specification) (T : String) : s.generating 0 T = 0 := by
  have empty : s.trees 0 T = ∅ :=
    Finset.eq_empty_of_forall_notMem fun d hd => absurd (mem_trees.mp hd).2 d.height_pos.not_ge
  rw [generating, empty, Finset.sum_empty]

end Specification

namespace Equations

open Specification

theorem iterate_phi {entries : List (Except Json Declaration)} {annotations : List (String × Json)} {s : Specification}
    (h : ofDeclarations entries annotations = .ok s) (k : Nat) :
    (∀ T d, d ∈ s.trees k T ↔ d ∈ s.derivations T ∧ d.height ≤ k) ∧
    ∀ z : ℚ, ((ofSystem s).phi z)^[k] (List.replicate (ofSystem s).order (Scalar.ofNat 0)) =
      s.names.map fun T => (s.generating k T).eval z := by
  have resolved := resolved h
  refine ⟨fun T d => mem_trees, fun z => ?_⟩
  induction k
  case zero =>
    have zero : s.names.map (fun T => (s.generating 0 T).eval z) = s.names.map fun _ => (0 : ℚ) :=
      List.map_congr_left fun T _ => by rw [generating_zero, Polynomial.eval_zero]
    rw [Function.iterate_zero, id, zero, List.map_const', order, ofSystem]
    simp [Scalar.ofNat]
  case succ k hi =>
    rw [Function.iterate_succ_apply', hi, phi_ofSystem resolved, Specification.names, List.map_map]
    exact List.map_congr_left fun t ht => (eval_generating_succ resolved z ht).symm

theorem words_iterate_phi : ofDeclarations wordEntries [] = .ok words ∧ (words.generating 2 "Word").eval (1 / 2) = 3 / 2 := by
  have iterate := (@iterate_phi wordEntries [] words rfl 2).2 (1 / 2)
  have values : ((ofSystem words).phi (1 / 2 : ℚ))^[2] [0, 0] = [3 / 2, 3 / 2] := by decide +kernel
  exact ⟨rfl, (List.cons.inj <| iterate.symm.trans values).1⟩

end Equations

end BoltzmannSampling
