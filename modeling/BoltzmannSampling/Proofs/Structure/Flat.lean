import Mathlib
import BoltzmannSampling.Proofs.Checks
import BoltzmannSampling.Proofs.Structure.Basic
import BoltzmannSampling.Structure.Flat

/-!
Tables of structures. A child has the place of its last visit, and that lies behind every visit of a node above it. So
following the places leads towards the end of the table, and it gives the tree back, since a node has the same nodes
below it whenever it is visited. If no node is shared, each place but the first is that of one child.
-/

namespace BoltzmannSampling

namespace FlatNode

theorem unfold_succ {nodes : List FlatNode} {n : FlatNode} {depth place : Nat} (h : nodes[place]? = some n) :
    unfold nodes.toArray (depth + 1) place =
      (n.children.mapM (unfold nodes.toArray depth)).map (.node place n.name n.typeName n.weight) := by
  rw [unfold]
  exact List.getElem?_toArray.trans h

end FlatNode

namespace Structure

variable {s a c : Structure} {cs order : List Structure} {i k m : Nat}

-- What is known by one mark is one node, wherever it stands.
def Consistent (s : Structure) : Prop := ∀ a ∈ s.walk, ∀ b ∈ s.walk, a.mark = b.mark → a = b

def relabel (f : Nat → Nat) : Structure → Structure
  | node m n t w cs => node (f m) n t w (cs.map (relabel f))

theorem relabel_node (f : Nat → Nat) (m n t w cs) :
    (node m n t w cs).relabel f = node (f m) n t w (cs.map (relabel f)) := by
  rw [relabel]

theorem walk_relabel (f : Nat → Nat) (s : Structure) : (s.relabel f).walk = s.walk.map (relabel f) := by
  induction s using Structure.induction
  case node m n t w cs hi =>
    rw [relabel_node, walk_node, walk_node, List.map_cons, relabel_node, List.flatMap_map, List.map_flatMap,
      List.flatMap_congr hi]

theorem mem_walk_self : (s : Structure) → s ∈ s.walk
  | node .. => walk_node ▸ List.mem_cons_self

theorem walk_eq : (s : Structure) → s.walk = s :: s.children.flatMap walk
  | node .. => walk_node

section Visits

-- The place of the last visit of a mark.
def place (order : List Structure) (m : Nat) : Nat := (lastVisits order).getD m 0

theorem place_concat (order : List Structure) (s : Structure) (m : Nat) :
    place (order ++ [s]) m = if s.mark = m then order.length else place order m := by
  have visits : lastVisits (order ++ [s]) = (lastVisits order).insert s.mark order.length := by
    rw [lastVisits, List.zipIdx_append, List.foldl_append]
    simp [lastVisits]
  rw [place, visits, Std.HashMap.getD_insert]
  simp [place]

-- No visit comes after the last one, which is one of the same mark.
theorem getElem?_place (h : order[i]? = some a) :
    i ≤ place order a.mark ∧ ∃ b, order[place order a.mark]? = some b ∧ b.mark = a.mark := by
  induction order using List.reverseRecOn
  case nil => simp at h
  case append_singleton order s hi =>
    rw [place_concat]
    split
    case isTrue same  =>
      have hl := (List.getElem?_eq_some_iff.mp h).1
      rw [List.length_append, List.length_singleton] at hl
      exact ⟨Nat.le_of_lt_succ hl, s, by simp, same⟩
    case isFalse other =>
      have hl : i < order.length := by
        by_contra hl
        rw [List.getElem?_append_right (not_lt.mp hl), List.getElem?_singleton] at h
        split at h <;> cases h
        exact other rfl
      rw [List.getElem?_append_left hl] at h
      obtain ⟨later, b, hb, same⟩ := hi h
      exact ⟨later, b, List.getElem?_append_left (List.getElem?_eq_some_iff.mp hb).1 ▸ hb, same⟩

end Visits

section Walks

theorem drop_walks (hi : ∀ c ∈ cs, ∀ i, c.walk[i]? = some a → a.walk <+: c.walk.drop i)
    (h : (cs.flatMap walk)[k]? = some a) : a.walk <+: (cs.flatMap walk).drop k := by
  induction cs generalizing k
  case nil => simp at h
  case cons c cs hs =>
    obtain ⟨hc, hcs⟩ := List.forall_mem_cons.mp hi
    rw [List.flatMap_cons] at h ⊢
    rcases lt_or_ge k c.walk.length with hk | hk
    case inl =>
      rw [List.getElem?_append_left hk] at h
      rw [List.drop_append_of_le_length hk.le]
      exact (hc k h).trans (List.prefix_append _ _)
    case inr =>
      rw [List.getElem?_append_right hk] at h
      rw [List.drop_append, List.drop_eq_nil_of_le hk, List.nil_append]
      exact hs hcs h

-- The walk of a node stands in every walk that comes to it, from there on.
theorem drop_walk (h : s.walk[i]? = some a) : a.walk <+: s.walk.drop i := by
  induction s using Structure.induction generalizing i
  case node m n t w cs hi =>
    rw [walk_node] at h ⊢
    cases i
    case zero =>
      rw [List.getElem?_cons_zero, Option.some.injEq] at h
      rw [← h, walk_node, List.drop_zero]
    case succ =>
      rw [List.getElem?_cons_succ] at h
      exact drop_walks (fun c hc i => hi c hc) h

theorem exists_visit (h : s.walk[i]? = some a) (hc : c ∈ a.children) : ∃ j, i < j ∧ s.walk[j]? = some c := by
  obtain ⟨k, hk⟩ := List.mem_iff_getElem?.mp (List.mem_flatMap.mpr ⟨c, hc, mem_walk_self c⟩)
  have there : a.walk[k + 1]? = some c := by rw [walk_eq, List.getElem?_cons_succ, hk]
  have ⟨rest, whole⟩ := drop_walk h
  refine ⟨i + (k + 1), by omega, ?_⟩
  rw [← List.getElem?_drop, ← whole, List.getElem?_append_left (List.getElem?_eq_some_iff.mp there).1, there]

-- Children and children of children are all nodes but the root.
theorem flatMap_children_perm (s : Structure) : (s.walk.flatMap children).Perm s.walk.tail := by
  induction s using Structure.induction
  case node m n t w cs hi =>
    have below : (cs.flatMap fun c => c.walk.flatMap children).Perm (cs.flatMap fun c => c.walk.tail) :=
      List.Perm.flatMap_left cs hi
    have heads : (cs.flatMap fun c => [c]).Perm cs := by rw [List.flatMap_singleton']
    rw [walk_node, List.flatMap_cons, List.tail_cons, List.flatMap_assoc]
    refine ((heads.symm.append below).trans (List.flatMap_append_perm ..)).trans ?_
    refine List.Perm.of_eq <| List.flatMap_congr fun c _ => ?_
    rw [walk_eq, List.tail_cons, List.singleton_append]

end Walks

-- An entry of the table is the node that is visited there.
theorem getElem?_flat (h : s.walk[i]? = some a) : s.flat.nodes[i]? =
    some ⟨a.name, a.typeName, a.weight, a.children.map fun c => place s.walk c.mark⟩ := by
  rw [flat, List.getElem?_map, h]
  rfl

namespace Consistent

theorem getElem?_place (h : s.Consistent) (ha : a ∈ s.walk) : s.walk[place s.walk a.mark]? = some a := by
  obtain ⟨i, hi⟩ := List.mem_iff_getElem?.mp ha
  obtain ⟨-, b, hb, same⟩ := Structure.getElem?_place hi
  rwa [h b (List.mem_of_getElem? hb) a ha same] at hb

-- A child comes after every visit of a node above it, so its last visit does.
theorem lt_place (ha : s.walk[i]? = some a) (hc : c ∈ a.children) :
    i < place s.walk c.mark ∧ place s.walk c.mark < s.walk.length := by
  obtain ⟨j, hj, visited⟩ := exists_visit ha hc
  obtain ⟨later, b, last, -⟩ := Structure.getElem?_place visited
  exact ⟨hj.trans_le later, (List.getElem?_eq_some_iff.mp last).1⟩

theorem place_root (h : s.Consistent) : place s.walk s.mark = 0 := by
  have below := (drop_walk <| h.getElem?_place (mem_walk_self s)).length_le
  have inhabited : 0 < s.walk.length := List.length_pos_of_mem (mem_walk_self s)
  rw [List.length_drop] at below
  omega

theorem unfold_flat (h : s.Consistent) {depth : Nat} (ha : a ∈ s.walk)
    (enough : s.walk.length ≤ depth + place s.walk a.mark) :
    FlatNode.unfold s.flat.nodes.toArray depth (place s.walk a.mark) = some (a.relabel (place s.walk)) := by
  induction a using Structure.induction generalizing depth
  case node m n t w cs hi =>
    have here := h.getElem?_place ha
    have inside := (List.getElem?_eq_some_iff.mp here).1
    obtain ⟨depth, rfl⟩ := Nat.exists_eq_succ_of_ne_zero (show depth ≠ 0 by omega)
    have children : (cs.map fun c => place s.walk c.mark).mapM (FlatNode.unfold s.flat.nodes.toArray depth) =
        some (cs.map (relabel (place s.walk))) := by
      refine Checks.mapM_eq_some.mpr <| List.forall₂_map_left_iff.mpr <| List.forall₂_map_right_iff.mpr <|
        List.forall₂_same.mpr fun c hc => ?_
      have ⟨_, _, visited⟩ := exists_visit here hc
      have ⟨later, _⟩ := lt_place here hc
      exact hi c hc (List.mem_of_getElem? visited) (by omega)
    rw [FlatNode.unfold_succ (getElem?_flat here), relabel_node]
    exact congrArg _ children

end Consistent

-- Without shared nodes every node has the place at which it is visited.
theorem map_place (unshared : (s.walk.map mark).Nodup) :
    s.walk.map (fun a => place s.walk a.mark) = List.range s.walk.length := by
  refine List.ext_getElem (by simp) fun i hi _ => ?_
  rw [List.length_map] at hi
  obtain ⟨-, b, visited, same⟩ := getElem?_place (List.getElem?_eq_getElem hi)
  rw [List.getElem_map, List.getElem_range]
  refine ((List.getElem?_inj (by simpa) unshared).mp ?_).symm
  rw [List.getElem?_map, List.getElem?_map, visited, List.getElem?_eq_getElem hi, Option.map_some, Option.map_some, same]

-- Unfolding the table of a structure gives the structure back, with places for marks. The places of children lead on, the
-- table lists the nodes of the tree in pre-order, and without shared nodes each of them but the root is one child.
theorem flat_unfolds (h : s.Consistent) :
    ∃ tree, FlatTable.tree? s.flat.nodes = some tree ∧ tree = s.relabel (place s.walk) ∧
      (∀ i n, s.flat.nodes[i]? = some n → ∀ j ∈ n.children, i < j ∧ j < s.flat.nodes.length) ∧
      s.flat.nodes.map (fun n => (n.name, n.typeName, n.weight)) =
        tree.walk.map (fun a => (a.name, a.typeName, a.weight)) ∧
      s.flat.size = (s.flat.nodes.map FlatNode.weight).sum ∧
      ((s.walk.map mark).Nodup →
        (s.flat.nodes.flatMap FlatNode.children).Perm (List.range' 1 (s.flat.nodes.length - 1))) := by
  have length : s.flat.nodes.length = s.walk.length := by rw [flat, List.length_map]
  refine ⟨_, ?tree, rfl, ?later, ?labels, ?size, ?unshared⟩
  case tree =>
    have enough : s.walk.length ≤ s.flat.nodes.length + place s.walk s.mark := by omega
    have := h.unfold_flat (mem_walk_self s) enough
    rwa [h.place_root] at this
  case later =>
    intro i n hn j hj
    obtain ⟨a, ha, rfl⟩ := Option.map_eq_some_iff.mp <| (List.getElem?_map ..).symm.trans hn
    obtain ⟨c, hc, rfl⟩ := List.mem_map.mp hj
    rw [length]
    exact Consistent.lt_place ha hc
  case labels =>
    have same (a : Structure) : ((a.relabel (place s.walk)).name, (a.relabel (place s.walk)).typeName,
        (a.relabel (place s.walk)).weight) = (a.name, a.typeName, a.weight) := by
      cases a
      rw [relabel_node]
      rfl
    rw [walk_relabel, flat, List.map_map, List.map_map]
    exact List.map_congr_left fun a _ => (same a).symm
  case size =>
    rw [flat, size_eq_sum, List.map_map]
    rfl
  case unshared =>
    intro unshared
    have children : s.flat.nodes.flatMap FlatNode.children =
        (s.walk.flatMap children).map fun c => place s.walk c.mark := by
      rw [flat, List.flatMap_map, List.map_flatMap]
      rfl
    have rest : s.walk.tail.map (fun c => place s.walk c.mark) = List.range' 1 (s.walk.length - 1) := by
      rw [List.map_tail, map_place unshared, List.range_eq_range', List.tail_range']
    rw [children, length, ← rest]
    exact (flatMap_children_perm s).map _

-- A fork whose left child is a fork of one leaf twice; the same leaf is its right child.
def forks : Structure :=
  node 0 "Upper" "T" 0 [node 1 "Lower" "T" 0 [node 2 "Leaf" "T" 1 [], node 2 "Leaf" "T" 1 []], node 2 "Leaf" "T" 1 []]

theorem forks_unfolds : forks.Consistent ∧ (∃ tree, FlatTable.tree? forks.flat.nodes = some tree ∧
    tree = forks.relabel (place forks.walk) ∧ tree.walk.map name = ["Upper", "Lower", "Leaf", "Leaf", "Leaf"]) ∧
      forks.flat.nodes.map FlatNode.children = [[1, 4], [4, 4], [], [], []] := by
  have consistent : forks.Consistent := by simp [Consistent, forks, walk_node, mark]
  obtain ⟨tree, unfolded, same, _⟩ := flat_unfolds consistent
  refine ⟨consistent, ⟨tree, unfolded, same, ?_⟩, ?_⟩
  · rw [same]
    cbv
  · cbv

end Structure

end BoltzmannSampling
