import Mathlib
import BoltzmannSampling.Number.Binary64

/-!
Doubles in the logic are bit patterns, and unpack to a sign, a mantissa and an exponent. Of those that are finite and
above zero `Binary64.ofFloat?` gives the value, and it is positive; all that are finite compare with zero.
-/

namespace BoltzmannSampling

open Float.Model Float.Model.UnpackedFloat

namespace Binary64

theorem of_unpack {b : BitVec Format.binary64.numBits} {m e hm} (h : UnpackedFloat.unpack .binary64 b = .finite .positive m e hm) :
    unpackExponent b ≠ -1#11 ∧ unpackSign b = 0#1 ∧
      (unpackExponent b = 0#11 → unpackMantissa b ≠ 0#52) := by
  have positive {s : BitVec 1} (hs : Sign.ofBitVec s = .positive) : s = 0#1 := by
    rw [Sign.ofBitVec] at hs
    split at hs
    case isTrue h => exact h
    case isFalse  => cases hs
  simp only [UnpackedFloat.unpack] at h
  split at h
  case isTrue => split at h <;> cases h
  case isFalse hi =>
    split at h
    case isFalse hz => exact ⟨hi, positive (UnpackedFloat.finite.inj h).1, fun he => absurd he hz⟩
    case isTrue  =>
      split at h
      case isTrue     => cases h
      case isFalse hf => exact ⟨hi, positive (UnpackedFloat.finite.inj h).1, fun _ => hf⟩

-- The fields of a bit pattern as numbers.
theorem unpackExponent_toNat (b : BitVec Format.binary64.numBits) :
    (unpackExponent b).toNat = b.toNat / hidden % 2048 := by
  simp [unpackExponent, hidden, twoTo, Nat.shiftRight_eq_div_pow]

theorem unpackMantissa_toNat (b : BitVec Format.binary64.numBits) : (unpackMantissa b).toNat = b.toNat % hidden := by
  simp [unpackMantissa, hidden, twoTo]

theorem unpackSign_toNat (b : BitVec Format.binary64.numBits) : (unpackSign b).toNat = b.toNat / twoTo 63 := by
  have hb : b.toNat < 2 ^ 64 := b.isLt
  simp [unpackSign, twoTo, Nat.shiftRight_eq_div_pow]
  omega

theorem unpack_positive {x : Float} (finite : x.isFinite) (positive : 0 < x) :
    ∃ m e hm, x.toModel.unpack = .finite .positive m e hm := by
  have hz : (0 : Float).toModel.unpack = .zero .positive := rfl
  have hl : ((0 : Float).toModel.unpack.compare x.toModel.unpack == some .lt) = true := of_decide_eq_true positive
  have hf : x.toModel.unpack.isFinite = true := finite
  rw [hz] at hl
  cases hx : x.toModel.unpack <;> rw [hx] at hl hf
  case infinity | notANumber => simp [UnpackedFloat.isFinite] at hf
  case zero                  => simp [UnpackedFloat.compare] at hl
  case finite s m e hm       =>
    cases s
    case positive => exact ⟨m, e, hm, rfl⟩
    case negative => simp [UnpackedFloat.compare] at hl

-- Doubles that are finite compare with zero one way or the other.
theorem compare_zero {x : Float} (finite : x.isFinite) : (¬0 < x ↔ x ≤ 0) ∧ (¬0 ≤ x ↔ x < 0) := by
  have less {x y : Float} : x < y ↔ x.toModel.unpack.lt y.toModel.unpack = true := decide_eq_true_iff
  have most {x y : Float} : x ≤ y ↔ x.toModel.unpack.le y.toModel.unpack = true := decide_eq_true_iff
  have hz : (0 : Float).toModel.unpack = .zero .positive := rfl
  have hf : x.toModel.unpack.isFinite = true := finite
  simp only [less, most, hz]
  cases hx : x.toModel.unpack <;> rw [hx] at hf
  case infinity | notANumber => simp [UnpackedFloat.isFinite] at hf
  case zero                  => simp [UnpackedFloat.lt, UnpackedFloat.le, UnpackedFloat.compare]
  case finite s m e hm       => cases s <;> simp [UnpackedFloat.lt, UnpackedFloat.le, UnpackedFloat.compare]

theorem ofFloat?_positive {x : Float} (finite : x.isFinite) (positive : 0 < x) :
    ∃ y, ofFloat? x = some y ∧ y.negative = false ∧ 0 < y.mantissa := by
  have ⟨m, e, hm, hx⟩ := unpack_positive finite positive
  have ⟨hi, hs, hz⟩ := of_unpack hx
  have hb : x.toBits.toNat = x.toModel.toBits.toBitVec.toNat := rfl
  simp only [ofFloat?, hb]
  generalize x.toModel.toBits.toBitVec = b at hi hs hz
  have hi : b.toNat / hidden % 2048 ≠ 2047 := fun hk => hi <| BitVec.eq_of_toNat_eq <| (unpackExponent_toNat b).trans hk
  have hn : b.toNat / twoTo 63 = 0 := by rw [← unpackSign_toNat, hs, BitVec.toNat_zero]
  rw [if_neg hi, hn]
  split
  case isTrue hk =>
    have hz := hz <| BitVec.eq_of_toNat_eq <| (unpackExponent_toNat b).trans hk
    refine ⟨_, rfl, rfl, Nat.pos_of_ne_zero fun hf => hz ?_⟩
    exact BitVec.eq_of_toNat_eq <| (unpackMantissa_toNat b).trans hf
  case isFalse => exact ⟨_, rfl, rfl, Nat.add_pos_right _ (by decide)⟩

end Binary64

end BoltzmannSampling
