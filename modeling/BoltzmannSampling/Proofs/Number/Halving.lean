import Mathlib
import BoltzmannSampling.Proofs.Number.Equality
import BoltzmannSampling.Proofs.Number.Rounding

/-!
Half of an integer in doubles. The double nearest to a positive integer has a full mantissa, and halving takes one from
its exponent, so that half of it is positive too. Integers of 53 bits are doubles, and their halves compare with
integers by value.
-/

namespace BoltzmannSampling

open Float.Model Float.Model.UnpackedFloat

namespace Binary64

variable {x : Float} {m i : Nat} {e : Int}

section Nearest

theorem roundDiv_bounds (num den : Nat) : num / den ≤ roundDiv num den ∧ roundDiv num den ≤ num / den + 1 := by
  simp only [roundDiv]
  split_ifs <;> omega

-- A positive integer has 53 bits in the units of the double nearest to it.
theorem inUnits_bounds (h : 0 < i) :
    2 ^ 52 ≤ (inUnits i 1 (i.log2 - 52)).1 / (inUnits i 1 (i.log2 - 52)).2 ∧
      (inUnits i 1 (i.log2 - 52)).1 / (inUnits i 1 (i.log2 - 52)).2 < 2 ^ 53 := by
  have low : 2 ^ i.log2 ≤ i := Nat.log2_self_le h.ne'
  have high : i < 2 ^ (i.log2 + 1) := Nat.lt_log2_self
  rw [inUnits]
  split
  case isTrue he =>
    obtain ⟨k, hk⟩ := Int.eq_ofNat_of_zero_le he
    have log : i.log2 = 52 + k := by omega
    simp only [hk, Int.toNat_natCast, one_mul, twoTo_eq]
    rw [Nat.le_div_iff_mul_le (Nat.two_pow_pos k), Nat.div_lt_iff_lt_mul (Nat.two_pow_pos k), ← Nat.pow_add,
      ← Nat.pow_add]
    exact ⟨log ▸ low, by rwa [show 53 + k = i.log2 + 1 by omega]⟩
  case isFalse he =>
    have split : i.log2 + (-((i.log2 : Int) - 52)).toNat = 52 := by omega
    have more : i.log2 + 1 + (-((i.log2 : Int) - 52)).toNat = 53 := by omega
    simp only [twoTo_eq, Nat.div_one]
    rw [← more, Nat.pow_add, ← split, Nat.pow_add]
    exact ⟨Nat.mul_le_mul_right _ low, Nat.mul_lt_mul_of_pos_right high (Nat.two_pow_pos _)⟩

theorem scaled_of_lt (h : 0 < i) (short : i < 2 ^ 53) : Scaled (i * 2 ^ (52 - i.log2)) (i.log2 - 52) i := by
  have log : i.log2 ≤ 52 := Nat.le_of_lt_succ ((Nat.log2_lt h.ne').mpr short)
  have low : 2 ^ i.log2 ≤ i := Nat.log2_self_le h.ne'
  have high : i < 2 ^ (i.log2 + 1) := Nat.lt_log2_self
  have split : i.log2 + (52 - i.log2) = 52 := by omega
  have more : i.log2 + 1 + (52 - i.log2) = 53 := by omega
  refine ⟨?full, ?bound, fun up => ?up, fun _ => ?down⟩
  case full =>
    calc 2 ^ 52 = 2 ^ i.log2 * 2 ^ (52 - i.log2) := by rw [← Nat.pow_add, split]
      _ ≤ i * 2 ^ (52 - i.log2) := Nat.mul_le_mul_right _ low
  case bound =>
    calc i * 2 ^ (52 - i.log2) < 2 ^ (i.log2 + 1) * 2 ^ (52 - i.log2) :=
          Nat.mul_lt_mul_of_pos_right high (Nat.two_pow_pos _)
      _ = 2 ^ 53 := by rw [← Nat.pow_add, more]
  case up =>
    have full : i.log2 = 52 := by omega
    simp [full]
  case down => rw [show (-((i.log2 : Int) - 52)).toNat = 52 - i.log2 by omega]

-- Mantissa and exponent of the double nearest to a positive integer.
structure Nearest (i m : Nat) (e : Int) : Prop where
  full  : 2 ^ 52 ≤ m
  bound : m < 2 ^ 53
  least : (i.log2 : Int) - 52 ≤ e
  exact : i < 2 ^ 53 → Scaled m e i

theorem ofRatio_nat (h : 0 < i) : ∃ m e, ofRatio false i 1 = pack false m e ∧ Nearest i m e := by
  by_cases short : i < 2 ^ 53
  case pos =>
    have scaled := scaled_of_lt h short
    exact ⟨_, _, scaled.ofRatio, scaled.full, scaled.bound, le_rfl, fun _ => scaled⟩
  case neg =>
    have ⟨low, high⟩ := inUnits_bounds h
    have ⟨floor, ceiling⟩ := roundDiv_bounds (inUnits i 1 (i.log2 - 52)).1 (inUnits i 1 (i.log2 - 52)).2
    rw [ofRatio, if_neg h.ne', exponentOf_nat h]
    by_cases fits : roundDiv (inUnits i 1 (i.log2 - 52)).1 (inUnits i 1 (i.log2 - 52)).2 < twoTo 53
    case pos =>
      refine ⟨_, _, if_pos fits, low.trans floor, ?_, le_rfl, fun h => absurd h short⟩
      rwa [twoTo_eq] at fits
    case neg =>
      have full : hidden = 2 ^ 52 := hidden_eq
      exact ⟨_, _, if_neg fits, full.ge, by omega, by omega, fun h => absurd h short⟩

end Nearest

section Fields

-- The value of a double above zero.
theorem ofFloat?_of_unpack {hm : 0 < m} (h : x.toModel.unpack = .finite .positive m e hm) :
    ofFloat? x = some ⟨false, m, e⟩ := by
  have hb : x.toBits.toNat = x.toModel.toBits.toBitVec.toNat := rfl
  obtain ⟨below, sign, -⟩ := of_unpack h
  change UnpackedFloat.unpack .binary64 x.toModel.toBits.toBitVec = _ at h
  have exponent := unpackExponent_toNat x.toModel.toBits.toBitVec
  have mantissa := unpackMantissa_toNat x.toModel.toBits.toBitVec
  have positive : x.toBits.toNat / twoTo 63 = 0 := by
    rw [hb, ← unpackSign_toNat, sign]
    rfl
  rw [← hb] at exponent mantissa
  have finite : x.toBits.toNat / hidden % 2048 ≠ 2047 := fun ones =>
    below <| BitVec.eq_of_toNat_eq (exponent.trans ones)
  simp only [ofFloat?, if_neg finite, positive]
  simp only [UnpackedFloat.unpack] at h
  split at h
  case isTrue  => split at h <;> cases h
  case isFalse =>
    split at h
    case isTrue zero =>
      split at h
      case isTrue  => cases h
      case isFalse =>
        have biased : x.toBits.toNat / hidden % 2048 = 0 := exponent.symm.trans (congrArg BitVec.toNat zero)
        obtain ⟨-, hm, he⟩ := UnpackedFloat.finite.inj h
        rw [if_pos biased, ← hm, ← he, mantissa, zero]
        rfl
    case isFalse nonzero =>
      have biased : x.toBits.toNat / hidden % 2048 ≠ 0 := fun zero =>
        nonzero <| BitVec.eq_of_toNat_eq (exponent.trans zero)
      obtain ⟨-, hm, he⟩ := UnpackedFloat.finite.inj h
      rw [if_neg biased, ← hm, ← he, append_implicit, mantissa, exponent, ← hidden_eq, Nat.add_comm]
      rfl

-- The bits of a double with a full mantissa, whose first bit is implicit.
theorem unpack_full {b : BitVec Format.binary64.numBits} (full : 2 ^ 52 ≤ m) (bound : m < 2 ^ 53) (least : -1074 ≤ e)
    (greatest : e ≤ 971) (hm : 0 < m) (value : b.toNat = (e + 1075).toNat * 2 ^ 52 + (m - 2 ^ 52)) :
    UnpackedFloat.unpack .binary64 b = .finite .positive m e hm := by
  have exponent : (unpackExponent b).toNat = (e + 1075).toNat := by
    rw [unpackExponent_toNat, value, hidden_eq]
    omega
  have mantissa : (unpackMantissa b).toNat = m - 2 ^ 52 := by
    rw [unpackMantissa_toNat, value, hidden_eq]
    omega
  have sign : unpackSign b = 0#1 := BitVec.eq_of_toNat_eq <| by
    rw [unpackSign_toNat, value, twoTo_eq, BitVec.toNat_zero]
    omega
  have below : unpackExponent b ≠ -1#11 := fun ones => by
    have : (e + 1075).toNat = 2047 := exponent.symm.trans (congrArg BitVec.toNat ones)
    omega
  have above : unpackExponent b ≠ 0#11 := fun zero => by
    have : (e + 1075).toNat = 0 := exponent.symm.trans (congrArg BitVec.toNat zero)
    omega
  simp only [UnpackedFloat.unpack, if_neg below, if_neg above, sign]
  refine finite_congr ?_ ?_
  · rw [append_implicit, mantissa]
    omega
  · rw [exponent]
    change ((e + 1075).toNat : Int) - 1075 = e
    omega

theorem unpack_pack_full (full : 2 ^ 52 ≤ m) (bound : m < 2 ^ 53) (least : -1074 ≤ e) (greatest : e ≤ 971)
    (hm : 0 < m) : (pack false m e).toModel.unpack = .finite .positive m e hm := by
  let bits := UInt64.ofNat ((e + 1075).toNat * hidden + (m - hidden))
  have packed : pack false m e = Float.ofBits bits := by
    have small : ¬e > greatestExponent := by
      rw [greatestExponent]
      omega
    have long : ¬m < hidden := by
      rw [hidden_eq]
      omega
    rw [pack, if_neg small, if_neg long]
    simp only [Bool.false_eq_true, if_false, Nat.zero_add, bits]
  have value : bits.toBitVec.toNat = (e + 1075).toNat * 2 ^ 52 + (m - 2 ^ 52) := by
    rw [UInt64.toNat_toBitVec, UInt64.toNat_ofNat', hidden_eq]
    omega
  rw [packed]
  change (Float.Model.pack (UnpackedFloat.unpack .binary64 bits.toBitVec)).unpack = _
  rw [unpack_full full bound least greatest hm value]
  exact unpack_pack_of_le ⟨bound, least, .inl full⟩ hm greatest

theorem greatest_of_isFinite (h : (pack false m e).isFinite = true) : e ≤ 971 := by
  by_contra large
  have infinite : pack false m e = Float.ofBits (UInt64.ofNat (0 + 2047 * hidden)) := by
    rw [pack, if_pos (show e > greatestExponent by rw [greatestExponent]; omega)]
    rfl
  rw [infinite] at h
  exact absurd h (by decide)

theorem unpack_of_ofInt? (h : ofInt? i = some x) (hi : 0 < i) :
    ∃ m e hm, x.toModel.unpack = .finite .positive m e hm ∧ e ≤ 971 ∧ Nearest i m e := by
  have ⟨m, e, ratio, nearest⟩ := ofRatio_nat hi
  have ⟨hf, hx⟩ : (pack false m e).isFinite = true ∧ pack false m e = x := by
    have sign : decide ((i : Int) < 0) = false := by simp
    simpa only [ofInt?, sign, Int.natAbs_natCast, ratio, Option.ite_none_right_eq_some, Option.some.injEq] using h
  have greatest := greatest_of_isFinite hf
  have least := nearest.least
  have positive : 0 < m := (Nat.two_pow_pos 52).trans_le nearest.full
  have unpacked := unpack_pack_full nearest.full nearest.bound (by omega) greatest positive
  exact ⟨m, e, positive, hx ▸ unpacked, greatest, nearest⟩

end Fields

section Halves

-- Halving is exact: the mantissa stays. The quotient has one bit more, which is zero.
theorem unpack_half {hm : 0 < m} (h : x.toModel.unpack = .finite .positive m e hm) (full : 2 ^ 52 ≤ m)
    (bound : m < 2 ^ 53) (least : -1072 ≤ e) (greatest : e ≤ 972) :
    (x / 2).toModel.unpack = .finite .positive m (e - 1) hm := by
  have two : (2 : Float).toModel.unpack = .finite .positive (2 ^ 52) (-51) (by decide) := rfl
  have log : m.log2 = 52 := (Nat.log2_eq_iff hm.ne').mpr ⟨full, bound⟩
  have total : totalExponent m e - totalExponent (2 ^ 52) (-51) = e + 51 := by
    rw [totalExponent, totalExponent, log, Nat.log2_two_pow]
    omega
  have target : min (e - -51) (Format.binary64.targetExponent (e + 51)) = e - 2 := by
    simp only [Format.targetExponent, Format.mantissaBits, Format.minExponent]
    omega
  have core : divCore .binary64 m e (2 ^ 52) (-51) = (2 * m, e - 2, .exact) := by
    have width : (e - -51 - (e - 2)).toNat = 53 := by omega
    have shifted : m <<< 53 = 2 * m * 2 ^ 52 := by
      rw [Nat.shiftLeft_eq]
      omega
    simp only [divCore, total, target, width, shifted, Nat.mul_div_cancel _ (Nat.two_pow_pos 52), Nat.mul_mod_left]
    rfl
  have cut : shiftToTargetExponent .binary64 (2 * m) (e - 2) .exact = (⟨m, false, false⟩, e - 1) := by
    rw [shiftToTargetExponent_even full bound (by omega)]
    exact Prod.ext rfl (by simp only; omega)
  have divided : UnpackedFloat.div .binary64 x.toModel.unpack (2 : Float).toModel.unpack =
      .finite .positive m (e - 1) hm := by
    rw [h, two, UnpackedFloat.div, core]
    exact roundWithAccuracy_eq cut (shiftToTargetExponent_short bound (by omega)) hm
  change (Float.Model.pack (UnpackedFloat.div .binary64 x.toModel.unpack (2 : Float).toModel.unpack)).unpack = _
  rw [divided]
  exact unpack_pack_of_le ⟨bound, by omega, .inl full⟩ hm (by omega)

-- Half of the double nearest to a natural number.
theorem half_cases (h : ofInt? i = some x) : (i = 0 ∧ (x / 2).toModel.unpack = .zero .positive) ∨
    ∃ m e hm, 0 < i ∧ (x / 2).toModel.unpack = .finite .positive m (e - 1) hm ∧ Nearest i m e := by
  rcases i.eq_zero_or_pos with rfl | hi
  · left
    have zero : ofInt? (0 : Nat) = some (Float.ofBits 0) := rfl
    cases h.symm.trans zero
    exact ⟨rfl, rfl⟩
  · have ⟨m, e, hm, hx, greatest, nearest⟩ := unpack_of_ofInt? h hi
    have least := nearest.least
    exact .inr ⟨m, e, hm, hi, unpack_half hx nearest.full nearest.bound (by omega) (by omega), nearest⟩

theorem one_gt_half (h : ofInt? i = some x) : 1 > x / 2 ↔ i < 2 := by
  have one : (1 : Float).toModel.unpack = .finite .positive (2 ^ 52) (-52) (by decide) := rfl
  rw [gt_iff_lt, lt_iff_place, one]
  rcases half_cases h with ⟨rfl, zero⟩ | ⟨m, e, hm, hi, half, nearest⟩
  · simp [zero, place, Prod.Lex.toLex_lt_toLex]
  · -- Both mantissas are full, so that the exponents decide.
    obtain ⟨full, _, least, exact⟩ := nearest
    simp only [half, place, Option.some.injEq, exists_and_left, exists_eq_left', Prod.Lex.toLex_lt_toLex,
      lt_irrefl, true_and, false_or]
    constructor
    · intro less
      by_contra large
      have : 1 ≤ i.log2 := (Nat.le_log2 hi.ne').mpr (by omega)
      omega
    · intro small
      have := (exact (by omega)).log2
      obtain rfl : i = 1 := by omega
      have : Nat.log2 1 = 0 := by decide
      omega

-- The sign of the value of a double above zero.
theorem positive_of_unpack {hm : 0 < m} (h : x.toModel.unpack = .finite .positive m e hm) :
    Number.Positive (.float x) := by
  have value : 0 < (toRatio ⟨false, m, e⟩).1 := by
    simp only [toRatio, twoTo_eq]
    split <;> simp [hm]
  simpa [Number.Positive, Number.lt, Number.compare?, Number.compareIntFloat, ofFloat?_of_unpack h,
    Int.compare_eq_lt] using value

theorem positive_half (h : ofInt? i = some x) : Number.Positive (.float (x / 2)) ↔ 0 < i := by
  rcases half_cases h with ⟨rfl, zero⟩ | ⟨m, e, hm, hi, half, _⟩
  · exact iff_of_false (fun positive => positive.float.2 _ zero) (lt_irrefl 0)
  · exact iff_of_true (positive_of_unpack half) hi

theorem compareIntFloat_of_value {b : Binary64} (h : ofFloat? x = some b) (k : Int) :
    Number.compareIntFloat k x = some (compare (k * b.toRatio.2) b.toRatio.1) := by
  rw [Number.compareIntFloat, h]

theorem compare_mul {c : Int} (hc : 0 < c) (a b : Int) : compare (a * c) (b * c) = compare a b := by
  rw [← cmp_eq_compare, ← cmp_eq_compare, cmp_mul_pos_right hc]

theorem compareIntFloat_one (k : Int) : Number.compareIntFloat k 1 = some (compare k 1) := by
  have one : ofFloat? 1 = some ⟨false, 2 ^ 52, -52⟩ := rfl
  have ratio : toRatio ⟨false, 2 ^ 52, -52⟩ = (1 * 2 ^ 52, 2 ^ 52) := rfl
  rw [compareIntFloat_of_value one, ratio, ← compare_mul (c := 2 ^ 52) (by decide) k 1]
  rfl

-- Below 53 bits half of an integer is exact, so that it compares with integers as it should.
theorem compareIntFloat_half (h : ofInt? i = some x) (short : i < 2 ^ 53) (k : Int) :
    Number.compareIntFloat k (x / 2) = some (compare (2 * k) i) := by
  rcases half_cases h with ⟨rfl, zero⟩ | ⟨m, e, hm, hi, half, nearest⟩
  · have ⟨b, hb, mantissa⟩ := ofFloat?_zero zero
    have value : b.toRatio.1 = 0 * b.toRatio.2 := by
      simp only [toRatio, mantissa]
      split <;> simp
    rw [compareIntFloat_of_value hb, value, compare_mul (Int.natCast_pos.mpr b.toRatio_pos), Int.mul_comm,
      ← compare_mul (c := 2) (by decide) k 0]
    rfl
  · have scaled := nearest.exact short
    have log := scaled.log2
    have : i.log2 < 53 := (Nat.log2_lt hi.ne').mpr short
    have down : (i : Int) * 2 ^ (-e).toNat = m := by exact_mod_cast scaled.down (by omega)
    have ratio : toRatio ⟨false, m, e - 1⟩ = ((m : Int), 2 ^ ((-e).toNat + 1)) := by
      have width : (-(e - 1)).toNat = (-e).toNat + 1 := by omega
      have below : ¬0 ≤ e - 1 := by omega
      simp only [toRatio, twoTo_eq, width, if_neg below, Bool.false_eq_true, if_false, one_mul]
    have twice : k * (2 ^ ((-e).toNat + 1) : Nat) = 2 * k * 2 ^ (-e).toNat := by
      push_cast
      ring
    rw [compareIntFloat_of_value (ofFloat?_of_unpack half), ratio, ← down, twice, compare_mul (by positivity)]

end Halves

end Binary64

namespace Number

variable {k i j : Int} {x : Float}

theorem int_le_float (h : compareIntFloat k x = some (compare i j)) :
    Number.le (.int k) (.float x) = true ↔ i ≤ j := by
  rw [Number.le, compare?, h]
  rcases lt_trichotomy i j with less | rfl | more
  · simp [compare_lt_iff_lt.mpr less, less.le]
  · simp
  · simp [compare_gt_iff_gt.mpr more, more]

theorem float_le_int (h : compareIntFloat k x = some (compare i j)) :
    Number.le (.float x) (.int k) = true ↔ j ≤ i := by
  rw [Number.le, compare?, h]
  rcases lt_trichotomy i j with less | rfl | more
  · simp [compare_lt_iff_lt.mpr less, less]
  · simp
  · simp [compare_gt_iff_gt.mpr more, more.le]

end Number

end BoltzmannSampling
