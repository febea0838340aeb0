/-!
Powers and sums of natural numbers: binary and decimal numbers are counted in powers of two and ten.
-/

namespace BoltzmannSampling

def twoTo (exponent : Nat) : Nat := Nat.pow 2 exponent

def tenTo (exponent : Nat) : Nat := Nat.pow 10 exponent

def total : List Nat → Nat
  | [] => 0
  | n :: rest => n + total rest

theorem total_append (ms ns : List Nat) : total (ms ++ ns) = total ms + total ns := by
  induction ms with
  | nil => simp [total]
  | cons m ms ih => simp [total, ih, Nat.add_assoc]

end BoltzmannSampling
