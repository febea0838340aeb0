import BoltzmannSampling.Digraph
import BoltzmannSampling.Specification.Basic

/-!
Least fixed points over the type table. A type is productive if it has a finite structure, and nullable if it has
one of size zero. The zero-size graph holds the references along which the size can stay zero.
-/

namespace BoltzmannSampling

namespace Specification

-- Types found so far, and the type of every constructor of a class whose references have all been found. One pass
-- goes through the constructors in table order and uses what it finds at once.
def pass (s : Specification) (counts : Constructor Symbol → Bool) (found : List String) : List String :=
  s.productions.foldl
    (fun found (t, c) =>
      if !found.contains t.name && counts c && c.refs.all (found.contains ·) then found ++ [t.name] else found)
    found

-- Passes until one finds nothing new.
def passes (s : Specification) (counts : Constructor Symbol → Bool) : Nat → List String → List String
  | 0, found => found
  | rounds + 1, found =>
    let next := s.pass counts found
    if next.length = found.length then found else passes s counts rounds next

-- The least set of types closed under the constructors of a class. A pass that finds something finds a type, so one
-- pass more than there are types ends the search.
def leastFixedPoint (s : Specification) (counts : Constructor Symbol → Bool) : List String :=
  s.passes counts (s.types.length + 1) []

-- The types with a finite structure.
def productive (s : Specification) : List String := s.leastFixedPoint fun _ => true

-- The types with a structure of size zero.
def nullable (s : Specification) : List String := s.leastFixedPoint fun c => c.size == 0

-- The references of a constructor whose other references all are nullable.
def freeReferences (nullable : List String) : List String → List String → List String
  | _, [] => []
  | before, r :: after =>
    let rest := freeReferences nullable (before ++ [r]) after
    if (before ++ after).all (nullable.contains ·) then r :: rest else rest

-- An edge from a type to each free reference of its constructors of size zero.
def zeroSizeGraph (s : Specification) (nullable : List String) : Digraph String :=
  ⟨s.names, (s.productions.flatMap fun (t, c) =>
    if c.size = 0 then (freeReferences nullable [] c.refs).map fun r => (t.name, r) else []).eraseDups⟩

-- The productive types on a cycle of the zero-size graph through productive types.
def zeroSizeCyclic (s : Specification) : List String :=
  ((s.zeroSizeGraph s.nullable).restrict (s.productive.contains ·)).cyclic

end Specification

end BoltzmannSampling
