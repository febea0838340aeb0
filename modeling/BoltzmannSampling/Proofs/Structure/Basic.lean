import Mathlib
import BoltzmannSampling.Structure.Basic

/-!
Walks of structures: a node comes before the walks of its children, and sizes and lengths add up accordingly.
-/

namespace BoltzmannSampling

namespace Structure

variable {m w : Nat} {n t : String} {cs : List Structure}

theorem induction {motive : Structure → Prop}
    (node : ∀ m n t w cs, (∀ c ∈ cs, motive c) → motive (.node m n t w cs)) : (s : Structure) → motive s
  | .node m n t w cs => node m n t w cs fun c _ => induction node c

theorem visit_visited : ∀ pending visited, visit pending visited = visit pending [] ++ visited
  | [], visited => by simp [visit]
  | .node m n t w cs :: rest, visited => by
    rw [visit, visit, visit_visited (cs ++ rest) (_ :: visited), visit_visited (cs ++ rest) [_], List.append_assoc,
      List.singleton_append]
termination_by pending => sizeOf pending
decreasing_by
  all_goals
    have := sizeOf_append cs rest
    simp
    omega

theorem visit_append (first rest visited : List Structure) :
    visit (first ++ rest) visited = visit rest (visit first visited) := by
  induction first, visited using visit.induct
  case case1 => simp [visit]
  case case2 m n t w cs others visited hi => rw [List.cons_append, visit, visit, ← hi, List.append_assoc]

theorem reverse_visit (pending : List Structure) : (visit pending []).reverse = pending.flatMap walk := by
  induction pending
  case nil => simp [visit]
  case cons s rest hi =>
    rw [← List.singleton_append, visit_append, visit_visited, List.reverse_append, hi, List.flatMap_append, List.flatMap_singleton]
    rfl

theorem walk_node : (node m n t w cs).walk = node m n t w cs :: cs.flatMap walk := by
  rw [walk, visit, List.append_nil, visit_visited, List.reverse_append, reverse_visit]
  rfl

theorem size_eq_sum (s : Structure) : s.size = (s.walk.map weight).sum := by
  rw [size, List.sum_eq_foldl, List.foldl_map]

theorem size_node : (node m n t w cs).size = w + (cs.map size).sum := by
  have hs : size = List.sum ∘ List.map weight ∘ walk := funext size_eq_sum
  rw [size_eq_sum, walk_node, List.map_cons, List.sum_cons, weight, List.flatMap_def, List.map_flatten,
    List.sum_flatten, List.map_map, List.map_map, hs, Function.comp_assoc]

theorem length_node : (node m n t w cs).length = 1 + (cs.map length).sum := by
  rw [length, walk_node, List.length_cons, List.length_flatMap, Nat.add_comm]
  rfl

end Structure

end BoltzmannSampling
