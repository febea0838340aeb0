import BoltzmannSampling.Random.Entropy

/-!
A permuted congruential generator: a linear congruential sequence of 128 bits whose numbers are folded to 64 bits and
rotated by their highest six bits. A uniform number in `[0, 1)` takes the highest 53 bits of an output.
-/

namespace BoltzmannSampling

structure Generator where
  state : Nat
  increment : Nat

namespace Generator

def multiplier : Nat := 0x2360ED051FC65DA44385DF649FCCF645

def advance (g : Generator) : Generator :=
  { g with state := (g.state * multiplier + g.increment) % twoTo 128 }

def ofEntropy (e : Entropy) : Generator :=
  match e.state 4 with
  | [a, b, c, d] =>
    let increment := (2 * (c * twoTo 64 + d) + 1) % twoTo 128
    let first : Generator := advance ⟨0, increment⟩
    advance { first with state := (first.state + a * twoTo 64 + b) % twoTo 128 }
  | _ => ⟨0, 1⟩

def rotateRight (word count : Nat) : Nat :=
  (word / twoTo count + word * twoTo (64 - count)) % twoTo 64

def output (g : Generator) : Nat :=
  rotateRight ((g.state / twoTo 64) ^^^ (g.state % twoTo 64)) (g.state / twoTo 122)

-- The next uniform number, a multiple of `2 ^ -53`.
def uniform (g : Generator) : Float × Generator :=
  let next := g.advance
  ((UInt64.ofNat (next.output / twoTo 11)).toFloat / 9007199254740992, next)

def uniforms : Nat → Generator → List Float × Generator
  | count, g =>
    let (drawn, last) := Nat.fold count (fun _ _ (drawn, g) => let (u, g) := uniform g; (u :: drawn, g)) (([] : List Float), g)
    (drawn.reverse, last)

end Generator

-- A stream of uniform numbers that are drawn from a generator a block at a time.
structure Stream where
  generator : Generator
  buffer : List Float

namespace Stream

def block : Nat := 256

def start (g : Generator) : Stream :=
  let (buffer, rest) := g.uniforms block
  ⟨rest, buffer⟩

def next (s : Stream) : Float × Stream :=
  match s.buffer with
  | u :: rest => (u, { s with buffer := rest })
  | [] =>
    match start s.generator with
    | ⟨g, u :: rest⟩ => (u, ⟨g, rest⟩)
    | ⟨g, []⟩ => (0, ⟨g, []⟩)

end Stream

end BoltzmannSampling
