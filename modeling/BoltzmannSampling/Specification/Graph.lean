import BoltzmannSampling.Digraph
import BoltzmannSampling.Specification.Basic

/-!
The reference graph of a system: an edge from every type to the types that its constructors refer to.
-/

namespace BoltzmannSampling

namespace Specification

-- The targets of a type with the constructors that refer to them, in order.
def referencesOf (t : TypeDef) : List (String × List String) :=
  let targets := (t.constructors.flatMap Constructor.targets).eraseDups
  targets.map fun r => (r, (t.constructors.filter (·.refs.contains r)).map (·.name))

def references (s : Specification) : List (String × String × List String) :=
  s.types.flatMap fun t => (referencesOf t).map fun (r, cs) => (t.name, r, cs)

def referenceGraph (s : Specification) : Digraph String :=
  ⟨s.names, s.references.map fun (a, b, _) => (a, b)⟩

def components (s : Specification) : List (String × String) := s.referenceGraph.components

def reachable (s : Specification) : List String := s.referenceGraph.reachable [s.initial]

end Specification

end BoltzmannSampling
