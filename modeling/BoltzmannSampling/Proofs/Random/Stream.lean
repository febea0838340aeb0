import Mathlib
import BoltzmannSampling.Random.Generator

/-!
The numbers of a generator one by one, and the stream that draws them a block at a time. A stream gives the numbers in
their order; its generator is always at the end of a block, the first of which is drawn before any number is taken.
-/

namespace BoltzmannSampling

namespace Generator

variable (g : Generator)

-- The generator after so many numbers.
def after : Nat → Generator
  | 0     => g
  | n + 1 => (after n).uniform.2

-- The number that comes after so many others.
def double (n : Nat) : Float := (g.after n).uniform.1

theorem after_add (m n : Nat) : g.after (m + n) = (g.after m).after n := by
  induction n
  case zero      => rfl
  case succ n hi => rw [← Nat.add_assoc, after, after, hi]

theorem double_after (m n : Nat) : (g.after m).double n = g.double (m + n) := by
  rw [double, double, after_add]

theorem uniforms_succ (count : Nat) : g.uniforms (count + 1) =
    ((g.uniforms count).1 ++ [(g.uniforms count).2.uniform.1], (g.uniforms count).2.uniform.2) := by
  simp only [uniforms, Nat.fold_succ]
  generalize Nat.fold count _ _ = state
  obtain ⟨drawn, last⟩ := state
  exact Prod.ext List.reverse_cons rfl

theorem uniforms_eq (count : Nat) : g.uniforms count = ((List.range count).map g.double, g.after count) := by
  induction count
  case zero          => rfl
  case succ count hi =>
    rw [uniforms_succ, hi, List.range_succ, List.map_append]
    rfl

end Generator

namespace Stream

-- How many numbers are drawn from the generator for so many taken: whole blocks, and one block at least.
def drawn (taken : Nat) : Nat := block * max 1 (taken ⌈/⌉ block)

theorem drawn_eq (taken : Nat) : drawn taken = 256 * max 1 ((taken + 255) / 256) := by
  rw [drawn, Nat.ceilDiv_eq_add_pred_div]
  rfl

theorem taken_le_drawn (taken : Nat) : taken ≤ drawn taken := by
  rw [drawn_eq]
  omega

-- Within a block nothing more is drawn.
theorem drawn_succ_of_lt {taken : Nat} (within : taken < drawn taken) : drawn (taken + 1) = drawn taken := by
  rw [drawn_eq] at within ⊢
  rw [drawn_eq]
  omega

-- At the end of one the next is drawn.
theorem drawn_succ_of_eq {taken : Nat} (spent : taken = drawn taken) : drawn (taken + 1) = taken + block := by
  have : block = 256 := rfl
  rw [drawn_eq] at spent ⊢
  omega

-- The stream of a generator of which so many numbers have been taken.
def past (g : Generator) (taken : Nat) : Stream :=
  ⟨g.after (drawn taken), (List.range' taken (drawn taken - taken)).map g.double⟩

variable (g : Generator)

theorem start_past : start g = past g 0 := by
  have first : drawn 0 = block := rfl
  rw [start, g.uniforms_eq, past, first, Nat.sub_zero, List.range_eq_range']

-- A new block continues the numbers of the old one.
theorem start_after (taken : Nat) :
    start (g.after taken) = ⟨g.after (taken + block), (List.range' taken block).map g.double⟩ := by
  have shifted : (g.after taken).double = g.double ∘ (taken + ·) := funext (g.double_after taken)
  rw [start, (g.after taken).uniforms_eq, ← g.after_add, shifted, ← List.map_map, List.range_eq_range',
    List.map_add_range', Nat.add_zero]

-- A number taken from the stream is the next one of the generator.
theorem next_past (taken : Nat) : (past g taken).next = (g.double taken, past g (taken + 1)) := by
  rcases (taken_le_drawn taken).lt_or_eq with within | spent
  case inl =>
    have left : drawn taken - taken = drawn taken - (taken + 1) + 1 := by omega
    rw [past, past, left, List.range'_succ, drawn_succ_of_lt within]
    rfl
  case inr =>
    have left : drawn taken - taken = 0 := by omega
    have later : drawn (taken + 1) - (taken + 1) = 255 := by
      rw [drawn_succ_of_eq spent]
      exact Nat.add_sub_add_left taken 256 1
    have block_eq : block = 255 + 1 := rfl
    rw [past, past, left, later, drawn_succ_of_eq spent, ← spent, List.range'_zero, List.map_nil]
    simp only [next, start_after]
    rw [block_eq, List.range'_succ, List.map_cons]

end Stream

end BoltzmannSampling
