import Mathlib
import BoltzmannSampling.Proofs.Assoc
import BoltzmannSampling.Proofs.Structure.Nested
import BoltzmannSampling.Proofs.Text.Quoted
import BoltzmannSampling.Structure.Shape

/-!
Traversals of structures as recursions. The traversals keep what remains to be done in a list, so that a tree of any
depth is no deep recursion. What they find is what the recursions over the tree say: the pre-order, the sums of weights
and nodes, the number of nodes of each name, the nested document, and the names with brackets and commas.
-/

namespace BoltzmannSampling

namespace Structure

variable {s : Structure} {m w : Nat} {n t : String} {cs : List Structure}

section Recursions

def preorder : Structure → List Structure
  | node m n t w cs => node m n t w cs :: cs.flatMap preorder

def totalWeight : Structure → Nat
  | node _ _ _ w cs => w + (cs.map totalWeight).sum

def nodeCount : Structure → Nat
  | node _ _ _ _ cs => 1 + (cs.map nodeCount).sum

-- The number of nodes of a name.
def occurrences (name : String) : Structure → Nat
  | node _ n _ _ cs => (if n = name then 1 else 0) + (cs.map (occurrences name)).sum

-- The name and, between brackets, the same of the children.
def bracketed : Structure → String
  | node _ n _ _ cs => if cs.isEmpty then n else n ++ "(" ++ Text.joined "," (cs.map bracketed) ++ ")"

end Recursions

section Walks

theorem walk_eq_preorder (s : Structure) : s.walk = s.preorder := by
  induction s using Structure.induction
  case node m n t w cs hi => rw [walk_node, preorder, List.flatMap_congr hi]

theorem size_eq_totalWeight (s : Structure) : s.size = s.totalWeight := by
  induction s using Structure.induction
  case node m n t w cs hi => rw [size_node, totalWeight, List.map_congr_left hi]

theorem length_eq_nodeCount (s : Structure) : s.length = s.nodeCount := by
  induction s using Structure.induction
  case node m n t w cs hi => rw [length_node, nodeCount, List.map_congr_left hi]

theorem count_walk (name : String) (s : Structure) : (s.walk.map Structure.name).count name = s.occurrences name := by
  induction s using Structure.induction
  case node m n t w cs hi =>
    have first : (node m n t w cs).name = n := rfl
    have rest : (List.map (List.count name ∘ fun c => c.walk.map Structure.name) cs).sum = (cs.map (occurrences name)).sum :=
      congrArg List.sum (List.map_congr_left hi)
    rw [walk_node, occurrences, List.map_cons, List.count_cons, first, List.map_flatMap, List.count_flatMap, rest, Nat.add_comm]
    simp

end Walks

section Counts

-- The names in the order of their first occurrence, each with its number of occurrences.
theorem tally_eq (names : List String) : tally names = names.eraseDups.map fun n => (n, names.count n) := by
  have added : tally names = (names.map fun n => (n, 1)).foldl (fun entries a => Assoc.add entries a.1 a.2) [] := by
    rw [List.foldl_map]
    rfl
  rw [added, Assoc.foldl_add, List.map_map]
  simp only [Assoc.amountOf_const, Nat.mul_one, Function.comp_def, List.map_id']

end Counts

section Shapes

def Piece.shown : Piece → String
  | tree s => s.bracketed
  | text t => t

theorem join_siblings (c : Structure) (cs : List Structure) :
    c.bracketed ++ String.join ((siblings cs).map Piece.shown) = Text.joined "," ((c :: cs).map bracketed) := by
  induction cs generalizing c
  case nil          => simp [siblings, Text.joined]
  case cons d cs hi =>
    have first : siblings (d :: cs) = .text "," :: .tree d :: siblings cs := rfl
    have joined := hi d
    rw [List.map_cons] at joined
    rw [first, List.map_cons, List.map_cons, String.join_cons, String.join_cons, List.map_cons, List.map_cons, Text.joined,
      String.intercalate_cons_cons, ← Text.joined, ← joined, String.append_assoc]
    rfl

theorem join_write (pieces : List Piece) (written : List String) :
    String.join (write pieces written).reverse = String.join written.reverse ++ String.join (pieces.map Piece.shown) := by
  induction pieces, written using write.induct
  case case1 written => simp [write]
  case case2 t rest written hi =>
    rw [write, hi, List.reverse_cons, String.join_append, List.map_cons, String.join_cons, String.append_assoc]
    simp [Piece.shown]
  case case3 m n t w rest written hi =>
    have leaf : (Piece.tree (node m n t w [])).shown = n := by simp [Piece.shown, bracketed]
    rw [write, hi, List.reverse_cons, String.join_append, List.map_cons, String.join_cons, leaf]
    simp [String.append_assoc]
  case case4 m n t w c cs rest written hi =>
    have inner : (Piece.tree (node m n t w (c :: cs))).shown =
        n ++ "(" ++ (c.bracketed ++ String.join ((siblings cs).map Piece.shown)) ++ ")" := by
      rw [join_siblings, Piece.shown, bracketed]
      rfl
    rw [write, hi, List.map_cons (f := Piece.shown), List.map_cons, String.join_cons, inner]
    simp [String.append_assoc, Piece.shown]

theorem shape_eq_bracketed (s : Structure) : s.shape = s.bracketed := by
  rw [shape, join_write]
  simp [Piece.shown]

end Shapes

-- Every traversal is its recursion over the tree.
theorem traversals_recursive (s : Structure) :
    s.walk = s.preorder ∧ s.size = s.totalWeight ∧ s.length = s.nodeCount ∧
      s.counts = (s.preorder.map name).eraseDups.map (fun n => (n, s.occurrences n)) ∧
      s.toJson = s.nested ∧ s.shape = s.bracketed := by
  refine ⟨walk_eq_preorder s, size_eq_totalWeight s, length_eq_nodeCount s, ?counts, toJson_eq_nested s, shape_eq_bracketed s⟩
  case counts =>
    have number (n : String) : (s.preorder.map name).count n = s.occurrences n := walk_eq_preorder s ▸ count_walk n s
    simp only [counts, walk_eq_preorder, tally_eq, number]

example : (node 0 "Node" "T" 1 [node 1 "Leaf" "T" 1 [], node 2 "Node" "T" 1 [node 3 "Leaf" "T" 1 []]]).shape =
    "Node(Leaf,Node(Leaf))" := by
  cbv

end Structure

end BoltzmannSampling
