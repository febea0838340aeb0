import BoltzmannSampling.Structure.Basic
import BoltzmannSampling.Tuning.Tuned

/-!
Statistics of structures: how often the constructors of each type occur, and a summary of sizes.
-/

namespace BoltzmannSampling

structure Frequency where
  typeName : String
  constructor : String
  count : Nat
  total : Nat

namespace Frequency

-- The share of the type's nodes; zero if there are none.
def share {α : Type} [Scalar α] (f : Frequency) : α :=
  if f.total = 0 then Scalar.ofNat 0 else Scalar.ofNat f.count / Scalar.ofNat f.total

end Frequency

namespace Structure

abbrev Choice := String × String

def countChoice (counts : List (Choice × Nat)) (choice : Choice) (more : Nat) : List (Choice × Nat) :=
  match counts with
  | [] => [(choice, more)]
  | (c, n) :: rest => if c == choice then (c, n + more) :: rest else (c, n) :: countChoice rest choice more

def choices (structures : List Structure) : List (Choice × Nat) :=
  (structures.flatMap walk).foldl (fun counts s => countChoice counts (s.typeName, s.name) 1) []

-- The choices of the declared types of a system, which count even where they do not occur.
def expected (s : Specification) : List Choice :=
  s.userTypes.flatMap fun t => t.constructors.map fun c => (t.name, c.name)

def withTotals (counts : List (Choice × Nat)) : List Frequency :=
  counts.map fun ((t, c), n) => ⟨t, c, n, total ((counts.filter (·.1.1 == t)).map (·.2))⟩

def before (a b : Frequency) : Bool :=
  decide (a.typeName < b.typeName) || (a.typeName == b.typeName && decide (a.constructor ≤ b.constructor))

def frequencies (structures : List Structure) : List Frequency :=
  (withTotals (choices structures)).mergeSort before

-- The frequencies of what occurs and of what a tuned system has, in table order, with probabilities; what the system
-- does not have comes last, without.
def tunedFrequencies (structures : List Structure) (tuned : Tuned) : List (Frequency × Option Float) :=
  let counts := (expected tuned.system).foldl (fun counts c => countChoice counts c 0) (choices structures)
  let names := tuned.system.constructorNames
  let place (f : Frequency) := names.idxOf f.constructor
  ((withTotals counts).mergeSort fun a b => place a ≤ place b).map fun f => (f, tuned.probability? f.constructor)

-- The value at a fraction of the way through sorted numbers, between two of them by linear interpolation.
def quantile (sorted : Array Float) (fraction : Float) : Float :=
  if sorted.isEmpty then 0 / 0
  else
    let position := fraction * (Float.ofNat (sorted.size - 1))
    let below := position.floor
    let a := sorted.getD below.toUInt64.toNat 0
    let b := sorted.getD (below.toUInt64.toNat + 1) a
    a + (b - a) * (position - below)

-- Count, mean, standard deviation with one degree of freedom less, and quartiles.
def summary (sizes : List Float) : List (String × Float) :=
  let n := Float.ofNat sizes.length
  let mean := Scalar.sum sizes / n
  let squares := Scalar.sum (sizes.map fun x => (x - mean) * (x - mean))
  let deviation := if sizes.length < 2 then 0 / 0 else (squares / (n - 1)).sqrt
  let sorted := (sizes.mergeSort fun a b => a ≤ b).toArray
  [("count", n), ("mean", mean), ("std", deviation), ("min", quantile sorted 0), ("25%", quantile sorted 0.25),
    ("50%", quantile sorted 0.5), ("75%", quantile sorted 0.75), ("max", quantile sorted 1)]

-- The summary of the sizes of structures, as far as these are in the range of doubles.
def sizeSummary (structures : List Structure) : Except Failure (List (String × Float)) := do
  let sizes ← structures.mapM fun s => ((Binary64.ofInt? s.size).map .ok).getD (.error .tooLarge)
  .ok (summary sizes)

end Structure

end BoltzmannSampling
