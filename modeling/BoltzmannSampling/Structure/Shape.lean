import BoltzmannSampling.Structure.Basic

/-!
The shape of a structure: the name of its constructor and, if there are children, their shapes between round
brackets with commas between them.
-/

namespace BoltzmannSampling

namespace Structure

-- What remains to be written: the shapes of trees, and the signs between and behind them.
inductive Piece where
  | tree (s : Structure)
  | text (t : String)

namespace Piece

noncomputable def measure : Piece → Nat
  | tree s => 2 * sizeOf s
  | text _ => 1

end Piece

-- Trees with a comma in front of each.
def siblings (cs : List Structure) : List Piece := cs.flatMap fun c => [.text ",", .tree c]

theorem total_siblings (cs : List Structure) : total ((siblings cs).map Piece.measure) + 2 ≤ 2 * sizeOf cs := by
  induction cs with
  | nil => simp [siblings, total]
  | cons c cs ih =>
    simp only [siblings, List.flatMap_cons, List.map_append, total_append, List.cons.sizeOf_spec] at ih ⊢
    simp only [List.map_cons, List.map_nil, Piece.measure, total]
    omega

-- Writes pieces behind what has been written, the last text first.
def write : List Piece → List String → List String
  | [], written => written
  | .text t :: rest, written => write rest (t :: written)
  | .tree (node _ n _ _ []) :: rest, written => write rest (n :: written)
  | .tree (node _ n _ _ (c :: cs)) :: rest, written =>
    write (.tree c :: (siblings cs ++ .text ")" :: rest)) ("(" :: n :: written)
termination_by pieces => total (pieces.map Piece.measure)
decreasing_by
  · simp [Piece.measure, total]
  · simp [Piece.measure, total]
  · have := total_siblings cs
    simp [Piece.measure, total, total_append]
    omega

def shape (s : Structure) : String := String.join (write [.tree s] []).reverse

end Structure

end BoltzmannSampling
