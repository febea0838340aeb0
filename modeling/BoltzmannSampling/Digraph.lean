/-!
Finite directed graphs: what can be reached, cycles, and strongly connected components. A graph is given
by its nodes and the list of edges.
-/

namespace BoltzmannSampling

structure Digraph (ν : Type) where
  nodes : List ν
  edges : List (ν × ν)

namespace Digraph

variable {ν : Type} [BEq ν] (g : Digraph ν)

def successors (a : ν) : List ν :=
  (g.edges.filter (·.1 == a)).map (·.2)

-- Adds successors until none is new, in at most `rounds` rounds.
def closure : Nat → List ν → List ν
  | 0, seen => seen
  | rounds + 1, seen =>
    let new := ((seen.flatMap g.successors).filter (!seen.contains ·)).eraseDups
    if new.isEmpty then seen else closure rounds (seen ++ new)

-- The nodes that paths from a set of nodes lead to, these nodes included. There are no more rounds than edges.
def reachable (start : List ν) : List ν :=
  g.closure g.edges.length start

-- Whether a path leads from one node to another; the empty path leads from a node to itself.
def reaches (a b : ν) : Bool := (g.reachable [a]).contains b

def restrict (keep : ν → Bool) : Digraph ν :=
  ⟨g.nodes.filter keep, g.edges.filter fun (a, b) => keep a && keep b⟩

-- The nodes that a path of at least one edge leads back to.
def cyclic : List ν :=
  g.nodes.filter fun a => (g.reachable (g.successors a)).contains a

-- Every node with the first node that lies on a closed path with it: the representative of its component.
def components : List (ν × ν) :=
  let reach := g.nodes.map fun a => (a, g.reachable [a])
  reach.map fun (a, fromA) =>
    let first := reach.find? fun (b, fromB) => fromA.contains b && fromB.contains a
    (a, (first.map (·.1)).getD a)

end Digraph

end BoltzmannSampling
