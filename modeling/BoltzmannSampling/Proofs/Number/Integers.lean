import Mathlib
import BoltzmannSampling.Proofs.Number.Halving

/-!
Natural numbers in the precision of doubles. The double nearest to a natural number stands for a natural number again,
and this is the same one exactly if it is a mantissa times a power of two. Those of 53 bits always are.
-/

namespace BoltzmannSampling

namespace Binary64

variable {i m : Nat} {e : Int} {x : Float}

theorem floor_up (he : 0 ≤ e) : (floor ⟨false, m, e⟩).toNat = m * 2 ^ e.toNat := by
  have value : (1 : Int) * m * twoTo e.toNat = (m * 2 ^ e.toNat : Nat) := by
    rw [twoTo_eq]
    push_cast
    ring
  simp only [floor, toRatio, if_pos he, Bool.false_eq_true, if_false, value, Nat.cast_one, Int.fdiv_one, Int.toNat_natCast]

-- A double that stands for a natural number has it as its floor.
theorem Scaled.floor (h : Scaled m e i) : (floor ⟨false, m, e⟩).toNat = i := by
  rcases Int.le_total 0 e with he | he
  · rw [floor_up he, h.up he]
  · by_cases hz : e = 0
    · rw [floor_up hz.ge, h.up hz.ge]
    · have value : (1 : Int) * m = i * twoTo (-e).toNat := by
        rw [twoTo_eq, ← h.down he]
        push_cast
        ring
      have positive : (twoTo (-e).toNat : Int) ≠ 0 := by simp [twoTo_eq]
      simp only [Binary64.floor, toRatio, if_neg (show ¬0 ≤ e by omega), Bool.false_eq_true, if_false, value,
        Int.mul_fdiv_cancel _ positive, Int.toNat_natCast]

theorem roundNat_of_scaled (h : Scaled m e i) (least : -1074 ≤ e) (greatest : e ≤ 971) : roundNat i = i := by
  have positive : 0 < m := (Nat.two_pow_pos 52).trans_le h.full
  have unpacked := ofFloat?_of_unpack <| unpack_pack_full h.full h.bound least greatest positive
  simp only [roundNat, h.ofRatio, unpacked, h.floor]

theorem roundNat_of_lt (short : i < 2 ^ 53) : roundNat i = i := by
  rcases i.eq_zero_or_pos with rfl | hi
  · decide
  · have log : i.log2 < 53 := (Nat.log2_lt hi.ne').mpr short
    exact roundNat_of_scaled (scaled_of_lt hi short) (by omega) (by omega)

theorem roundNat_eq_self (h : ofInt? i = some x) (hi : 0 < i) : roundNat i = i ↔ ∃ m e, Scaled m e i := by
  obtain ⟨hf, hx⟩ : (ofRatio false i 1).isFinite = true ∧ ofRatio false i 1 = x := by
    have sign : decide ((i : Int) < 0) = false := by simp
    simpa only [ofInt?, sign, Int.natAbs_natCast, Option.ite_none_right_eq_some, Option.some.injEq] using h
  constructor
  · intro same
    obtain ⟨m, e, hm, unpacked, -, nearest⟩ := unpack_of_ofInt? h hi
    by_cases short : i < 2 ^ 53
    case pos => exact ⟨m, e, nearest.exact short⟩
    case neg =>
      -- From 53 bits on the exponent is above zero, so that the floor is the value.
      have log : 53 ≤ i.log2 := (Nat.le_log2 hi.ne').mpr (by omega)
      have least := nearest.least
      rw [roundNat, hx, ofFloat?_of_unpack unpacked] at same
      have value : i = m * 2 ^ e.toNat := same.symm.trans (floor_up (by omega))
      exact ⟨m, e, nearest.full, nearest.bound, fun _ => value, fun _ => by omega⟩
  · rintro ⟨m, e, scaled⟩
    have log := scaled.log2
    rw [scaled.ofRatio] at hf
    exact roundNat_of_scaled scaled (by omega) (greatest_of_isFinite hf)

end Binary64

end BoltzmannSampling
