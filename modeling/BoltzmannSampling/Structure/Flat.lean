import BoltzmannSampling.Structure.Basic
import Std.Data.HashMap

/-!
Structures as tables of nodes. The table of a structure lists the nodes in pre-order; children are given by their
places, and a node that is visited more than once has the place of its last visit. Following the children from the
first node gives the tree back.
-/

namespace BoltzmannSampling

-- A node with the places of its children.
structure FlatNode where
  name : String
  typeName : String
  weight : Nat
  children : List Nat

-- The type of the root, the number of atoms, and the nodes with the root in front.
structure FlatTable where
  typeName : String
  size : Nat
  nodes : List FlatNode

namespace FlatNode

def toJson (n : FlatNode) : Json :=
  .object [("name", .text n.name), ("type", .text n.typeName), ("weight", .nat n.weight),
    ("children", .array (n.children.map .nat))]

-- The tree that grows from a place of a table, to a depth of at most `depth` nodes below it.
def unfold (nodes : Array FlatNode) : Nat → Nat → Option Structure
  | depth, place =>
    match nodes[place]?, depth with
    | some n, depth + 1 => (n.children.mapM (unfold nodes depth)).map fun cs => .node place n.name n.typeName n.weight cs
    | _, _ => none

end FlatNode

namespace FlatTable

def toJson (t : FlatTable) : Json :=
  .object [("type", .text t.typeName), ("size", .nat t.size), ("nodes", .array (t.nodes.map FlatNode.toJson))]

-- The tree of a table; `none` if a child is missing or the table has a cycle.
def tree? (nodes : List FlatNode) : Option Structure :=
  FlatNode.unfold nodes.toArray nodes.length 0

end FlatTable

namespace Structure

-- The place of the last visit of every mark.
def lastVisits (order : List Structure) : Std.HashMap Nat Nat :=
  order.zipIdx.foldl (fun places (s, i) => places.insert s.mark i) {}

def flat (s : Structure) : FlatTable :=
  let order := s.walk
  let places := lastVisits order
  ⟨s.typeName, s.size, order.map fun n =>
    ⟨n.name, n.typeName, n.weight, n.children.map fun c => places.getD c.mark 0⟩⟩

end Structure

end BoltzmannSampling
