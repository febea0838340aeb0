import Mathlib
import BoltzmannSampling.Proofs.Number.Order

/-!
Sums of doubles. The exact sum of two doubles from zero on is cut to the length of a mantissa and rounded to one of its
two neighbours, so that it never falls below a double that the exact sum is not below: adding a double from zero on
makes none smaller.
-/

namespace BoltzmannSampling

open Float.Model Float.Model.UnpackedFloat

namespace Binary64

variable {x p : Float} {m n k : Nat} {e f : Int} {s : Sign}

-- Mantissa and exponent of a double: the mantissa is as long as it can be, unless the exponent is the least.
structure Canonical (m : Nat) (e : Int) : Prop where
  short  : m < 2 ^ 53
  least  : -1074 ≤ e
  normal : 2 ^ 52 ≤ m ∨ e = -1074

section Fields

theorem append_implicit (b : BitVec 52) : (1#1 ++ b).toNat = 2 ^ 52 + b.toNat := by
  rw [BitVec.toNat_append, ← Nat.shiftLeft_add_eq_or_of_lt b.isLt]
  rfl

theorem canonical_unpack {b : BitVec Format.binary64.numBits} {hm : 0 < m}
    (h : UnpackedFloat.unpack .binary64 b = .finite s m e hm) : Canonical m e := by
  have bound : (unpackMantissa b).toNat < 2 ^ 52 := (unpackMantissa b).isLt
  simp only [UnpackedFloat.unpack] at h
  split at h
  case isTrue  => split at h <;> cases h
  case isFalse =>
    split at h
    case isTrue zero =>
      split at h
      case isTrue  => cases h
      case isFalse =>
        cases h
        rw [zero]
        exact ⟨bound.trans (by decide), le_rfl, .inr rfl⟩
    case isFalse nonzero =>
      cases h
      have positive : (unpackExponent b).toNat ≠ 0 := fun h => nonzero (BitVec.eq_of_toNat_eq h)
      rw [append_implicit]
      refine ⟨by omega, ?_, .inl (by omega)⟩
      change (-1074 : Int) ≤ (unpackExponent b).toNat - (1023 + 52)
      omega

theorem ofBitVec_unpackSign (spec : Format) (s : Sign) (exponent : BitVec spec.exponentBits)
    (mantissa : BitVec spec.mantissaBitsWithoutImplicit) :
    Sign.ofBitVec (unpackSign (packComponents spec s exponent mantissa)) = s := by
  have : unpackSign (packComponents spec s exponent mantissa) = s.toBitVec := by
    ext i hi
    simp [unpackSign, packComponents, BitVec.getLsbD_append, BitVec.getElem_append, Nat.lt_one_iff.mp hi]
  rw [this]
  cases s <;> rfl

theorem finite_congr {hm : 0 < m} {hn : 0 < n} (mantissa : m = n) (exponent : e = f) :
    UnpackedFloat.finite s m e hm = .finite s n f hn := by
  subst mantissa exponent
  rfl

theorem unpack_normal {exponent : BitVec 11} {mantissa : BitVec 52} (above : exponent ≠ 0#11) (below : exponent ≠ -1#11)
    (hm : 0 < m) (hd : 2 ^ 52 + mantissa.toNat = m) (he : (exponent.toNat : Int) - 1075 = e) :
    UnpackedFloat.unpack .binary64 (packComponents .binary64 s exponent mantissa) = .finite s m e hm := by
  simp only [UnpackedFloat.unpack, unpackExponent_packComponents, unpackMantissa_packComponents, ofBitVec_unpackSign,
    if_neg above, if_neg below]
  exact finite_congr ((append_implicit mantissa).trans hd) he

theorem unpack_subnormal {mantissa : BitVec 52} (hm : 0 < m) (hd : mantissa.toNat = m) :
    UnpackedFloat.unpack .binary64 (packComponents .binary64 s 0#11 mantissa) = .finite s m (-1074) hm := by
  have nonzero : mantissa ≠ 0#52 := by
    rintro rfl
    exact hm.ne hd
  have below : 0#11 ≠ -1#11 := by decide
  simp only [UnpackedFloat.unpack, unpackExponent_packComponents, unpackMantissa_packComponents, ofBitVec_unpackSign,
    if_neg below, if_true, dif_neg nonzero]
  exact finite_congr hd rfl

-- Packing keeps a mantissa and an exponent that is not beyond the range of doubles.
theorem unpack_pack_of_le (h : Canonical m e) (hm : 0 < m) (greatest : e ≤ 971) :
    (Float.Model.pack (.finite s m e hm)).unpack = .finite s m e hm := by
  obtain ⟨short, least, normal⟩ := h
  have biased : (e + (Format.binary64.exponentBias : Int) + (52 : Nat)).toNat = (e + 1075).toNat := by
    change (e + 1023 + 52).toNat = _
    omega
  change UnpackedFloat.unpack .binary64 (UnpackedFloat.pack .binary64 (.finite s m e hm)) = _
  simp only [UnpackedFloat.pack, biased]
  split
  case isTrue large =>
    change 2048 ≤ (e + 1075).toNat + 1 at large
    omega
  case isFalse =>
    split
    case isTrue long =>
      change m.log2 + 1 = 53 at long
      have low : 2 ^ 52 ≤ m := (Nat.le_log2 hm.ne').mp (by omega)
      have field : (BitVec.ofNat 11 (e + 1075).toNat).toNat = (e + 1075).toNat := by
        rw [BitVec.toNat_ofNat, Nat.mod_eq_of_lt (by omega)]
      refine unpack_normal (fun zero => ?_) (fun ones => ?_) hm ?_ ?_
      · have : (e + 1075).toNat = 0 := field.symm.trans (congrArg BitVec.toNat zero)
        omega
      · have : (e + 1075).toNat = 2047 := field.symm.trans (congrArg BitVec.toNat ones)
        omega
      · rw [BitVec.toNat_ofNat]
        omega
      · rw [field]
        omega
    case isFalse long =>
      change ¬m.log2 + 1 = 53 at long
      have low : m < 2 ^ 52 := by
        by_contra low
        have := (Nat.le_log2 hm.ne').mpr (not_lt.mp low)
        have := (Nat.log2_lt hm.ne').mpr short
        omega
      obtain rfl := normal.resolve_left low.not_ge
      exact unpack_subnormal hm (by rw [BitVec.toNat_ofNat, Nat.mod_eq_of_lt low])

theorem unpack_pack (h : Canonical m e) (hm : 0 < m) :
    (Float.Model.pack (.finite s m e hm)).unpack = .finite s m e hm ∨
      (Float.Model.pack (.finite s m e hm)).unpack = .infinity s := by
  by_cases greatest : e ≤ 971
  case pos => exact .inl (unpack_pack_of_le h hm greatest)
  case neg =>
    right
    change UnpackedFloat.unpack .binary64 (UnpackedFloat.pack .binary64 (.finite s m e hm)) = _
    have large : 2 ^ Format.binary64.exponentBits ≤
        (e + (Format.binary64.exponentBias : Int) + (52 : Nat)).toNat + 1 := by
      change 2048 ≤ (e + 1023 + 52).toNat + 1
      omega
    simp only [UnpackedFloat.pack, if_pos large]
    cases s <;> rfl

theorem unpack_pack_infinity (s : Sign) : (Float.Model.pack (.infinity s)).unpack = .infinity s := by
  cases s <;> rfl

end Fields

section Rounding

theorem targetExponent_eq (m : Nat) (e : Int) :
    Format.binary64.targetExponent (totalExponent m e) = max ((m.log2 : Int) + e - 52) (-1074) := by
  simp only [Format.targetExponent, totalExponent, Format.mantissaBits, Format.minExponent]
  omega

theorem shiftRight_mantissa (em : ExtendedMantissa) (k : Nat) : (em >>> k).mantissa = em.mantissa / 2 ^ k := by
  induction k
  case zero => simp [HShiftRight.hShiftRight, Nat.repeat]
  case succ k hi =>
    change (em >>> k).mantissa / 2 = _
    rw [hi, Nat.div_div_eq_div_mul, Nat.pow_succ]

theorem roundedMantissa_bounds (em : ExtendedMantissa) :
    em.mantissa ≤ em.roundedMantissa ∧ em.roundedMantissa ≤ em.mantissa + 1 := by
  obtain ⟨m, r, s⟩ := em
  cases r <;> cases s <;>
    simp only [ExtendedMantissa.roundedMantissa, ExtendedMantissa.accuracy, Accuracy.roundToNearestEven] <;> omega

-- A mantissa that is cut has 53 bits at most, and no fewer if the exponent is not the least.
theorem shiftToTargetExponent_spec (hm : 0 < m) (he : e ≤ max ((m.log2 : Int) + e - 52) (-1074)) :
    ∃ em, shiftToTargetExponent .binary64 m e .exact = (em, max ((m.log2 : Int) + e - 52) (-1074)) ∧
      em.mantissa = m / 2 ^ (max ((m.log2 : Int) + e - 52) (-1074) - e).toNat ∧ em.mantissa < 2 ^ 53 ∧
      (2 ^ 52 ≤ em.mantissa ∨ max ((m.log2 : Int) + e - 52) (-1074) = -1074) := by
  generalize ht : max ((m.log2 : Int) + e - 52) (-1074) = t at he
  have cut : (ExtendedMantissa.ofMantissaAndAccuracy m .exact >>> (t - e).toNat).mantissa = m / 2 ^ (t - e).toNat :=
    shiftRight_mantissa _ _
  refine ⟨ExtendedMantissa.ofMantissaAndAccuracy m .exact >>> (t - e).toNat, ?_, cut, ?_, ?_⟩
  · simp only [shiftToTargetExponent, shiftToExponent, targetExponent_eq, ht]
    congr 1
    omega
  · rw [cut, Nat.div_lt_iff_lt_mul (Nat.two_pow_pos _), ← Nat.pow_add, ← Nat.log2_lt hm.ne']
    omega
  · by_cases small : t = -1074
    case pos => exact .inr small
    case neg =>
      left
      rw [cut, Nat.le_div_iff_mul_le (Nat.two_pow_pos _), ← Nat.pow_add, ← Nat.le_log2 hm.ne']
      omega

theorem shiftToTargetExponent_short (short : m < 2 ^ 53) (least : -1074 ≤ e) :
    shiftToTargetExponent .binary64 m e .exact = (⟨m, false, false⟩, e) := by
  have log : m.log2 ≤ 52 := by
    by_cases hm : m = 0
    case pos => simp [hm]
    case neg => exact Nat.le_of_lt_succ ((Nat.log2_lt hm).mpr short)
  have still : (max ((m.log2 : Int) + e - 52) (-1074) - e).toNat = 0 := by omega
  simp only [shiftToTargetExponent, shiftToExponent, targetExponent_eq, still]
  exact Prod.ext rfl (by simp)

-- A mantissa that is a bit too long, and even.
theorem shiftToTargetExponent_even (full : 2 ^ 52 ≤ m) (bound : m < 2 ^ 53) (least : -1074 ≤ e) :
    shiftToTargetExponent .binary64 (2 * m) e .exact = (⟨m, false, false⟩, e + 1) := by
  have log : (2 * m).log2 = 53 := (Nat.log2_eq_iff (by omega)).mpr ⟨by omega, by omega⟩
  have one : (max (((2 * m).log2 : Int) + e - 52) (-1074) - e).toNat = 1 := by
    rw [log]
    omega
  have shifted : ExtendedMantissa.shiftRightOne ⟨2 * m, false, false⟩ = ⟨m, false, false⟩ := by
    simp [ExtendedMantissa.shiftRightOne]
  simp only [shiftToTargetExponent, shiftToExponent, targetExponent_eq, one]
  exact Prod.ext shifted rfl

-- Rounding up the longest mantissa leaves one that is a bit too long.
theorem shiftToTargetExponent_carry (least : -1074 ≤ e) :
    shiftToTargetExponent .binary64 (2 ^ 53) e .exact = (⟨2 ^ 52, false, false⟩, e + 1) := by
  have twice : 2 ^ 53 = 2 * 2 ^ 52 := by decide
  rw [twice]
  exact shiftToTargetExponent_even le_rfl (by decide) least

theorem roundWithAccuracy_eq {em em' : ExtendedMantissa} {g : Int}
    (cut : shiftToTargetExponent .binary64 m e .exact = (em, f))
    (carried : shiftToTargetExponent .binary64 em.roundedMantissa f .exact = (em', g)) (hm : 0 < em'.mantissa) :
    roundWithAccuracy .binary64 s m e .exact = .finite s em'.mantissa g hm := by
  simp [roundWithAccuracy, cut, carried, hm.ne']

-- The result of rounding is not below a double that the number rounded is not below.
theorem round_spec {exact : Nat} (h : Canonical m e) (hm : 0 < m) (le : m * 2 ^ k ≤ exact) : ∃ n f hn,
    round .binary64 .positive exact (e - k) = .finite .positive n f hn ∧ Canonical n f ∧
      (e < f ∨ e = f ∧ m ≤ n) := by
  obtain ⟨_, least, normal⟩ := h
  have he : 0 < exact := (Nat.mul_pos hm (Nat.two_pow_pos k)).trans_le le
  -- The exact number has its first bit at the place of that of the double, or above it.
  have above : e ≤ max ((exact.log2 : Int) + (e - k) - 52) (-1074) := by
    rcases normal with normal | rfl
    · have : 52 + k ≤ exact.log2 := by
        rw [Nat.le_log2 he.ne', Nat.pow_add]
        exact (Nat.mul_le_mul_right _ normal).trans le
      omega
    · exact le_max_right _ _
  obtain ⟨em, shift, cut, short, normal⟩ :=
    shiftToTargetExponent_spec he (show e - (k : Int) ≤ max ((exact.log2 : Int) + (e - k) - 52) (-1074) by omega)
  have target := targetExponent_eq exact (e - k)
  have least : -1074 ≤ max ((exact.log2 : Int) + (e - k) - 52) (-1074) := le_max_right _ _
  generalize max ((exact.log2 : Int) + (e - k) - 52) (-1074) = t at *
  have unshifted : decreaseExponent exact (e - k) t = (exact, e - k) := by
    have zero : (e - k - t).toNat = 0 := by omega
    simp [decreaseExponent, zero]
  have same (he : e = t) : m ≤ em.mantissa := by
    have width : (t - (e - k)).toNat = k := by omega
    rw [cut, width, Nat.le_div_iff_mul_le (Nat.two_pow_pos k)]
    exact le
  have ⟨floor, ceiling⟩ := roundedMantissa_bounds em
  simp only [UnpackedFloat.round, target, unshifted]
  by_cases fits : em.roundedMantissa < 2 ^ 53
  case pos =>
    have positive : 0 < em.roundedMantissa := by
      rcases normal with normal | small
      · omega
      · exact hm.trans_le ((same (by omega)).trans floor)
    refine ⟨em.roundedMantissa, t, positive, ?_, ⟨fits, least, normal.imp_left (·.trans floor)⟩, ?_⟩
    · exact roundWithAccuracy_eq shift (shiftToTargetExponent_short fits least) positive
    · rcases above.lt_or_eq with above | he
      · exact .inl above
      · exact .inr ⟨he, (same he).trans floor⟩
  case neg =>
    have full : em.roundedMantissa = 2 ^ 53 := by omega
    refine ⟨2 ^ 52, t + 1, by decide, ?_, ⟨by decide, by omega, .inl le_rfl⟩, .inl (by omega)⟩
    exact roundWithAccuracy_eq shift (full ▸ shiftToTargetExponent_carry least) (by decide)

end Rounding

theorem add_positive (hm : 0 < m) (hn : 0 < n) (h : Canonical m e) (f : Int) : ∃ r g hr,
    UnpackedFloat.add .binary64 (.finite .positive m e hm) (.finite .positive n f hn) = .finite .positive r g hr ∧
      Canonical r g ∧ (e < g ∨ e = g ∧ m ≤ r) := by
  let low := min e f
  have width : e - ((e - low).toNat : Int) = low := by omega
  have le : m * 2 ^ (e - low).toNat ≤ m <<< (e - low).toNat + n <<< (f - low).toNat := by
    rw [Nat.shiftLeft_eq]
    exact Nat.le_add_right _ _
  have ⟨r, g, hr, rounded, canonical, above⟩ := round_spec h hm le
  have positive : compare ((m <<< (e - low).toNat + n <<< (f - low).toNat : Nat) : Int) 0 = .gt := by
    have := Nat.mul_pos hm (Nat.two_pow_pos (e - low).toNat)
    rw [compare_gt_iff_gt]
    omega
  refine ⟨r, g, hr, ?_, canonical, above⟩
  rw [← rounded, width]
  simp only [UnpackedFloat.add, decreaseExponent, Sign.apply, UnpackedFloat.normalize, ← Int.natCast_add]
  rw [positive]
  rfl

-- A double from zero on is a zero, has a positive mantissa, or is infinite.
theorem nonneg_cases (h : 0 ≤ x) : (∃ s, x.toModel.unpack = .zero s) ∨
    (∃ m e hm, x.toModel.unpack = .finite .positive m e hm ∧ Canonical m e) ∨
      x.toModel.unpack = .infinity .positive := by
  have hz : (0 : Float).toModel.unpack = .zero .positive := rfl
  have le := le_iff.mp h
  rw [hz] at le
  cases hx : x.toModel.unpack <;> rw [hx] at le
  case notANumber => cases le
  case zero s     => exact .inl ⟨s, rfl⟩
  case infinity s =>
    cases s
    case negative => cases le
    case positive => exact .inr (.inr rfl)
  case finite s m e hm =>
    cases s
    case negative => cases le
    case positive => exact .inr (.inl ⟨m, e, hm, rfl, canonical_unpack hx⟩)

theorem le_infinity (h : 0 ≤ x) : x.toModel.unpack.le (.infinity .positive) = true := by
  rcases nonneg_cases h with ⟨s, zero⟩ | ⟨m, e, hm, finite, _⟩ | infinite
  · rw [zero]
    rfl
  · rw [finite]
    rfl
  · rw [infinite]
    rfl

theorem add_infinity (hx : 0 ≤ x) (hp : 0 ≤ p)
    (infinite : x.toModel.unpack = .infinity .positive ∨ p.toModel.unpack = .infinity .positive) :
    (x + p).toModel.unpack = .infinity .positive := by
  have sum : (x + p).toModel = .pack (UnpackedFloat.add .binary64 x.toModel.unpack p.toModel.unpack) := rfl
  have added : UnpackedFloat.add .binary64 x.toModel.unpack p.toModel.unpack = .infinity .positive := by
    rcases infinite with infinite | infinite
    · rcases nonneg_cases hp with ⟨s, other⟩ | ⟨_, _, _, other, _⟩ | other <;> (rw [infinite, other]; rfl)
    · rcases nonneg_cases hx with ⟨s, other⟩ | ⟨_, _, _, other, _⟩ | other <;> (rw [infinite, other]; rfl)
  rw [sum, added]
  exact unpack_pack_infinity .positive

theorem le_add (hx : 0 ≤ x) (hp : 0 ≤ p) : x ≤ x + p := by
  have sum : (x + p).toModel = .pack (UnpackedFloat.add .binary64 x.toModel.unpack p.toModel.unpack) := rfl
  have overflow (h : (x + p).toModel.unpack = .infinity .positive) : x ≤ x + p := by
    rw [le_iff, h]
    exact le_infinity hx
  rcases nonneg_cases hp with ⟨s, zero⟩ | ⟨n, f, hn, hp', _⟩ | infinite
  · rw [le_iff]
    rcases unpack_add_zero (x := x) zero with same | ⟨s', s'', hx', hs⟩
    · rw [same]
      exact le_iff.mp (comparable hx)
    · rw [hx', hs]
      rfl
  · rcases nonneg_cases hx with ⟨s, zero⟩ | ⟨m, e, hm, hx', canonical⟩ | infinite
    · have packed : Float.Model.pack p.toModel.unpack = p.toModel := congrArg Float.toModel (Float.ofBits_toBits p)
      have same : UnpackedFloat.add .binary64 x.toModel.unpack p.toModel.unpack = p.toModel.unpack := by
        rw [zero, hp']
        rfl
      rw [le_iff, sum, same, packed, zero]
      exact zero_le (s := .positive) (le_iff.mp hp)
    · have ⟨r, g, hr, added, canonical, above⟩ := add_positive hm hn canonical f
      rw [hx', hp', added] at sum
      rcases unpack_pack canonical hr with same | infinite
      · rw [le_iff, hx', sum, same, unpacked_le_iff]
        refine ⟨_, _, rfl, rfl, ?_⟩
        simpa [Prod.Lex.toLex_le_toLex] using above
      · exact overflow (sum ▸ infinite)
    · exact overflow (add_infinity hx hp (.inl infinite))
  · exact overflow (add_infinity hx hp (.inr infinite))

end Binary64

end BoltzmannSampling
