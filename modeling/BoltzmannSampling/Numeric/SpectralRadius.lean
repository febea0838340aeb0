import BoltzmannSampling.Digraph

/-!
The spectral radius of a square matrix of doubles: the greatest over the blocks that the strongly connected
components of its non-zero pattern form. A block of one entry has the entry's absolute value. For a larger block
`A`, with `A₀ = A`, `nₖ` the greatest absolute value in `Aₖ`, and `Aₖ₊₁ = (Aₖ / nₖ)²`, the radius is the product of
the `2ᵏ`-th roots of all `nₖ`.
-/

namespace BoltzmannSampling

namespace SpectralRadius

structure Block where
  order : Nat
  entries : FloatArray

namespace Block

def entry (b : Block) (i j : Nat) : Float := b.entries.get! (i * b.order + j)

def generate (order : Nat) (f : Nat → Nat → Float) : Block :=
  ⟨order, Nat.fold (order * order) (fun k _ (acc : FloatArray) => acc.push (f (k / order) (k % order)))
    (FloatArray.emptyWithCapacity (order * order))⟩

def norm (b : Block) : Float :=
  Nat.fold (b.order * b.order) (fun k _ m => let a := (b.entries.get! k).abs; if m < a then a else m) 0

def squareOver (b : Block) (n : Float) : Block :=
  let c : Block := generate b.order fun i j => b.entry i j / n
  generate b.order fun i j => Nat.fold b.order (fun k _ acc => acc + c.entry i k * c.entry k j) 0

-- The binary logarithm of the radius, from `rounds` squarings; `none` if a power vanishes.
def logarithm? : Nat → Block → Option Float
  | 0, _ => some 0
  | rounds + 1, b =>
    let n := b.norm
    if n == 0 then none
    else (logarithm? rounds (b.squareOver n)).map fun rest => Float.log2 n + rest / 2

-- After so many squarings the rest is below the precision of doubles.
def rounds : Nat := 60

def radius (b : Block) : Float :=
  match b.logarithm? rounds with
  | some l => Float.exp2 l
  | none => 0

end Block

def entryAt (matrix : Array (Array Float)) (i j : Nat) : Float := ((matrix[i]?).bind (·[j]?)).getD 0

def pattern (matrix : Array (Array Float)) : Digraph Nat :=
  let nodes := List.range matrix.size
  ⟨nodes, nodes.flatMap fun i => nodes.filterMap fun j => if entryAt matrix i j == 0 then none else some (i, j)⟩

def blockRadius (matrix : Array (Array Float)) (members : List Nat) : Float :=
  match members with
  | [i] => (entryAt matrix i i).abs
  | _ =>
    let index := members.toArray
    (Block.generate index.size fun a b => entryAt matrix (index.getD a 0) (index.getD b 0)).radius

end SpectralRadius

-- The spectral radius of a square matrix of finite entries, zero if there are none.
def spectralRadius (matrix : List (List Float)) : Float :=
  let matrix := (matrix.map List.toArray).toArray
  let components := (SpectralRadius.pattern matrix).components
  let representatives := (components.map (·.2)).eraseDups
  let radii := representatives.map fun r =>
    SpectralRadius.blockRadius matrix ((components.filter (·.2 == r)).map (·.1))
  radii.foldl (fun m r => if m < r then r else m) 0

end BoltzmannSampling
