import BoltzmannSampling.Numeric.Scalar

/-!
Pairwise sums. Fewer than eight numbers are summed from left to right; up to 128 in eight lanes, which are then
summed in pairs, and the rest from left to right; more numbers in two halves.
-/

namespace BoltzmannSampling

namespace Scalar

variable {α : Type} [Scalar α]

-- Adds eight numbers at a time to eight lanes; the lanes and the rest.
def lanes (acc : List α) (xs : List α) : List α × List α :=
  if xs.length < 8 then (acc, xs) else lanes (List.zipWith (· + ·) acc (xs.take 8)) (xs.drop 8)
termination_by xs.length
decreasing_by simp; omega

def pairs : List α → List α
  | x :: y :: rest => (x + y) :: pairs rest
  | rest => rest

-- The length of the first half: a multiple of eight.
def firstHalf (n : Nat) : Nat := n / 2 - n / 2 % 8

def pairwiseSum (xs : List α) : α :=
  if xs.length < 8 then sum xs
  else if 128 < xs.length then
    pairwiseSum (xs.take (firstHalf xs.length)) + pairwiseSum (xs.drop (firstHalf xs.length))
  else
    let (acc, rest) := lanes (xs.take 8) (xs.drop 8)
    rest.foldl (· + ·) (sum (pairs (pairs acc)))
termination_by xs.length
decreasing_by
  all_goals simp [firstHalf]; omega

end Scalar

end BoltzmannSampling
