import BoltzmannSampling.Failure

/-!
Entropy: the seed of independent random streams. The words of the seed and of a key are hashed into a pool of four
words, from which the state of a generator is drawn. Every child has the words of its parent and a longer key.
-/

namespace BoltzmannSampling

-- The words of a seed, the key of a stream, and how many children it has had.
structure Entropy where
  words : List UInt32
  key : List Nat
  children : Nat

namespace Entropy

-- The digits of a number to the base `2 ^ 32`, the lowest first; those of zero are one zero.
def wordsOf (n : Nat) : List UInt32 :=
  if n < twoTo 32 then [UInt32.ofNat n] else UInt32.ofNat (n % twoTo 32) :: wordsOf (n / twoTo 32)
termination_by n
decreasing_by
  have : 1 < twoTo 32 := by decide
  exact Nat.div_lt_self (by omega) this

def ofSeed (seed : Int) : Except Failure Entropy :=
  if seed < 0 then .error (.request .negativeEntropy) else .ok ⟨wordsOf seed.toNat, [], 0⟩

def ofSeeds (seeds : List Int) : Except Failure Entropy := do
  let parts ← seeds.mapM ofSeed
  .ok ⟨parts.flatMap Entropy.words, [], 0⟩

-- The next children, and the entropy that remembers them.
def spawn (e : Entropy) (count : Nat) : List Entropy × Entropy :=
  ((List.range count).map fun i => ⟨e.words, e.key ++ [e.children + i], 0⟩, { e with children := e.children + count })

def poolSize : Nat := 4

-- The words to hash: those of the seed, filled up to the pool if a key follows, and those of the key.
def material (e : Entropy) : List UInt32 :=
  if e.key.isEmpty then e.words
  else e.words ++ List.replicate (poolSize - e.words.length) 0 ++ e.key.flatMap wordsOf

def fold (v : UInt32) : UInt32 := v ^^^ (v >>> 16)

-- The hash of a word, with a multiplier that changes from word to word.
def hash (multiplier v : UInt32) : UInt32 × UInt32 :=
  let next := multiplier * 0x931e8875
  (fold ((v ^^^ multiplier) * next), next)

def mix (x y : UInt32) : UInt32 := fold (0xca01f9dd * x - 0x4973f715 * y)

def hashAll (multiplier : UInt32) : List UInt32 → List UInt32 × UInt32
  | [] => ([], multiplier)
  | v :: rest =>
    let (h, next) := hash multiplier v
    let (hs, last) := hashAll next rest
    (h :: hs, last)

def stir (state : Array UInt32 × UInt32) (step : Nat × Nat) : Array UInt32 × UInt32 :=
  let (pool, multiplier) := state
  let (h, next) := hash multiplier (pool.getD step.1 0)
  (pool.modify step.2 (mix · h), next)

-- Mixes a further word, hashed anew each time, into every word of the pool.
def absorb (state : Array UInt32 × UInt32) (word : UInt32) : Array UInt32 × UInt32 :=
  (List.range poolSize).foldl
    (fun (pool, multiplier) i =>
      let (h, next) := hash multiplier word
      (pool.modify i (mix · h), next))
    state

def pool (e : Entropy) : Array UInt32 :=
  let words := e.material
  let first := (List.range poolSize).map fun i => words.getD i 0
  let (hashed, multiplier) := hashAll 0x43b0d7e5 first
  let steps := (List.range poolSize).flatMap fun s =>
    ((List.range poolSize).filter (· != s)).map fun d => (s, d)
  let stirred := steps.foldl stir (hashed.toArray, multiplier)
  ((words.drop poolSize).foldl absorb stirred).1

-- Words drawn from the pool, going around it.
def drawWords (pool : Array UInt32) : Nat → Nat → UInt32 → List UInt32
  | 0, _, _ => []
  | count + 1, i, multiplier =>
    let next := multiplier * 0x58f38ded
    fold ((pool.getD (i % poolSize) 0 ^^^ multiplier) * next) :: drawWords pool count (i + 1) next

def state (e : Entropy) (count : Nat) : List Nat :=
  let words := drawWords e.pool (2 * count) 0 0x8b51f9dd
  (List.range count).map fun j => (words.getD (2 * j) 0).toNat + (words.getD (2 * j + 1) 0).toNat * twoTo 32

end Entropy

end BoltzmannSampling
