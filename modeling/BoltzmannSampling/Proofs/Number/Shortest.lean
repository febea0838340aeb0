import Mathlib
import BoltzmannSampling.Number.Decimal
import BoltzmannSampling.Proofs.Number.Quotients

/-!
The decimal of fewest digits that reads back. Among the decimals of seventeen digits there is one that rounds to a given
double, since they lie closer together than the numbers that round to it reach. So the search for one with as few
digits as possible ends with a decimal that is read as the double.
-/

namespace BoltzmannSampling

open Binary64

namespace Decimal

variable {b : Binary64} {num den : Nat} {k l : Int} {n : Neighbourhood} {c : Decimal}

def toRat (c : Decimal) : ℚ := c.coefficient * 10 ^ c.scale

section Powers

theorem ten_pos (k : Int) : (0 : ℚ) < 10 ^ k := zpow_pos (by norm_num) k

-- A power of ten as a quotient of natural ones.
theorem ten_mul (k : Int) : (10 : ℚ) ^ k * tenTo (-k).toNat = tenTo k.toNat := by
  rcases le_total 0 k with hk | hk
  · obtain ⟨i, rfl⟩ := Int.eq_ofNat_of_zero_le hk
    simp [tenTo_eq]
  · obtain ⟨i, hi⟩ := Int.eq_ofNat_of_zero_le (Int.neg_nonneg.mpr hk)
    obtain rfl : k = -i := by omega
    simp [tenTo_eq]

theorem inUnits_pos (h : 0 < den) (k : Int) : 0 < (inUnits num den k).2 :=
  unitsOf_pos (by decide) h k

theorem inUnits_eq (num den : Nat) (k : Int) :
    ((inUnits num den k).1 : ℚ) / (inUnits num den k).2 = num / den / 10 ^ k := by
  exact_mod_cast unitsOf_eq (by decide : 0 < 10) num den k

theorem reaches_iff (hd : 0 < den) : reaches num den k = true ↔ (10 : ℚ) ^ k ≤ num / den := by
  have pos : (0 : ℚ) < den := by exact_mod_cast hd
  rw [reaches, le_div_iff₀ pos]
  split
  case isTrue hk =>
    obtain ⟨i, rfl⟩ := Int.eq_ofNat_of_zero_le hk
    rw [decide_eq_true_iff, zpow_natCast, mul_comm, Int.toNat_natCast, tenTo_eq]
    exact_mod_cast Iff.rfl
  case isFalse hk =>
    obtain ⟨i, hi⟩ := Int.eq_ofNat_of_zero_le (show 0 ≤ -k by omega)
    obtain rfl : k = -i := by omega
    rw [decide_eq_true_iff, zpow_neg, zpow_natCast, inv_mul_le_iff₀ (by positivity), mul_comm ((10 : ℚ) ^ i), neg_neg,
      Int.toNat_natCast, tenTo_eq]
    exact_mod_cast Iff.rfl

-- Near the range of doubles, 30103 / 100000 is close enough to the decimal logarithm of two.
theorem ten_le_two (h : 100000 * (k + 1) ≤ 30103 * (l + 1)) (low : -1100 ≤ l) (high : l ≤ 1100) : (10 : ℚ) ^ k ≤ 2 ^ l := by
  rcases le_or_gt 0 k with hk | hk
  · obtain ⟨i, rfl⟩ := Int.eq_ofNat_of_zero_le hk
    obtain ⟨j, rfl⟩ := Int.eq_ofNat_of_zero_le (show 0 ≤ l by omega)
    rw [zpow_natCast, zpow_natCast]
    refine le_of_pow_le_pow_left₀ (n := 59) (by decide) (by positivity) ?_
    calc ((10 : ℚ) ^ i) ^ 59 = (10 ^ 59) ^ i := pow_right_comm ..
      _ ≤ (2 ^ 196) ^ i := pow_le_pow_left₀ (by norm_num) (by norm_num) i
      _ = 2 ^ (196 * i) := (pow_mul ..).symm
      _ ≤ 2 ^ (j * 59) := pow_le_pow_right₀ one_le_two (by omega)
      _ = (2 ^ j) ^ 59 := pow_mul ..
  · obtain ⟨i, hi⟩ := Int.eq_ofNat_of_zero_le (show 0 ≤ -k by omega)
    obtain rfl : k = -i := by omega
    rcases le_or_gt 0 l with hl | hl
    · exact (zpow_le_one_of_nonpos₀ (by norm_num) (by omega)).trans (one_le_zpow₀ one_le_two hl)
    · obtain ⟨j, hj⟩ := Int.eq_ofNat_of_zero_le (show 0 ≤ -l by omega)
      obtain rfl : l = -j := by omega
      rw [zpow_neg, zpow_neg, zpow_natCast, zpow_natCast, inv_le_inv₀ (by positivity) (by positivity)]
      refine le_of_pow_le_pow_left₀ (n := 28) (by decide) (by positivity) ?_
      calc ((2 : ℚ) ^ j) ^ 28 = 2 ^ (j * 28) := (pow_mul ..).symm
        _ ≤ 2 ^ (93 * i) := pow_le_pow_right₀ one_le_two (by omega)
        _ = (2 ^ 93) ^ i := pow_mul ..
        _ ≤ (10 ^ 28) ^ i := pow_le_pow_left₀ (by norm_num) (by norm_num) i
        _ = (10 ^ i) ^ 28 := pow_right_comm ..

theorem leadingExponent_le (hn : 0 < num) (hd : 0 < den) (low : (2 : ℚ) ^ (-1090 : Int) ≤ num / den)
    (high : (num : ℚ) / den ≤ 2 ^ (1090 : Int)) : (10 : ℚ) ^ leadingExponent num den ≤ num / den := by
  have ⟨below, above⟩ := quotient_bounds hn hd
  have floor (i : Int) : 100000 * Int.fdiv i 100000 ≤ i := by
    rw [Int.fdiv_eq_ediv_of_nonneg _ (by decide)]
    omega
  have guess := floor (((num.log2 : Int) - den.log2) * 30103)
  have least : -1090 < (num.log2 : Int) - den.log2 + 1 := (zpow_lt_zpow_iff_right₀ one_lt_two).mp (low.trans_lt above)
  have most : (num.log2 : Int) - den.log2 - 1 < 1090 := (zpow_lt_zpow_iff_right₀ one_lt_two).mp (below.trans_le high)
  simp only [leadingExponent]
  split_ifs with first second
  · exact (reaches_iff hd).mp first
  · exact (reaches_iff hd).mp second
  · exact (ten_le_two (by omega) (by omega) (by omega)).trans below.le

end Powers

namespace Neighbourhood

variable {scale : Int} {left : Nat}

-- The neighbourhood of a double, in units of its last bit.
structure Spans (n : Neighbourhood) (m : Nat) (e : Int) : Prop where
  pos    : 0 < n.den
  low    : (n.low : ℚ) / n.den = (m - reach m e) * 2 ^ e
  value  : (n.value : ℚ) / n.den = m * 2 ^ e
  high   : (n.high : ℚ) / n.den = (m + 1 / 2) * 2 ^ e
  closed : n.closed = true ↔ m % 2 = 0

theorem spans_of (hm : 0 < b.mantissa) : (of b).Spans b.mantissa b.exponent := by
  have quarter (k : Nat) : (((k * if 0 ≤ b.exponent - 2 then twoTo (b.exponent - 2).toNat else 1 : Nat) : ℚ) /
      (if 0 ≤ b.exponent - 2 then 1 else twoTo (-(b.exponent - 2)).toNat : Nat)) = k / 4 * 2 ^ b.exponent := by
    have scaled (i : Int) : ((if 0 ≤ i then twoTo i.toNat else 1 : Nat) : ℚ) /
        (if 0 ≤ i then 1 else twoTo (-i).toNat : Nat) = 2 ^ i := by
      split
      case isTrue hi =>
        obtain ⟨j, rfl⟩ := Int.eq_ofNat_of_zero_le hi
        simp [twoTo_eq]
      case isFalse hi =>
        obtain ⟨j, hj⟩ := Int.eq_ofNat_of_zero_le (show 0 ≤ -i by omega)
        obtain rfl : i = -j := by omega
        simp [twoTo_eq]
    rw [Nat.cast_mul, mul_div_assoc, scaled, zpow_sub₀ two_ne_zero]
    norm_num
    ring
  have four : 4 ≤ 4 * b.mantissa := by omega
  refine ⟨?_, ?_, ?_, ?_, ?_⟩
  · simp only [of]
    split
    case isTrue  => exact one_pos
    case isFalse => exact Nat.two_pow_pos _
  · simp only [of, quarter, reach]
    split
    case isTrue =>
      rw [Nat.cast_sub (by omega)]
      push_cast
      ring
    case isFalse =>
      rw [Nat.cast_sub (by omega)]
      push_cast
      ring
  · simp only [of, quarter]
    push_cast
    ring
  · simp only [of, quarter]
    push_cast
    ring
  · exact beq_iff_eq

theorem Spans.contains_iff (h : n.Spans b.mantissa b.exponent) :
    n.contains c = true ↔ RoundsTo c.toRat b.mantissa b.exponent := by
  have two : (0 : ℚ) < 2 ^ b.exponent := zpow_pos two_pos _
  have den : (0 : ℚ) < n.den := by exact_mod_cast h.pos
  have unit : (0 : ℚ) < n.den * tenTo (-c.scale).toNat :=
    mul_pos den (by exact_mod_cast Nat.pow_pos (by decide))
  have edge (a : Nat) : ((a * tenTo (-c.scale).toNat : Nat) : ℚ) = a / n.den * (n.den * tenTo (-c.scale).toNat) := by
    push_cast
    field_simp
  have point : ((c.coefficient * n.den * tenTo c.scale.toNat : Nat) : ℚ) =
      c.toRat * (n.den * tenTo (-c.scale).toNat) := by
    push_cast
    rw [toRat, ← ten_mul c.scale]
    ring
  have low : n.low * tenTo (-c.scale).toNat ≤ c.coefficient * n.den * tenTo c.scale.toNat ↔
      b.mantissa - reach b.mantissa b.exponent ≤ c.toRat / 2 ^ b.exponent := by
    rw [← Nat.cast_le (α := ℚ), edge, point, mul_le_mul_iff_of_pos_right unit, h.low, le_div_iff₀ two]
  have high : c.coefficient * n.den * tenTo c.scale.toNat ≤ n.high * tenTo (-c.scale).toNat ↔
      c.toRat / 2 ^ b.exponent ≤ b.mantissa + 1 / 2 := by
    rw [← Nat.cast_le (α := ℚ), edge, point, mul_le_mul_iff_of_pos_right unit, h.high, div_le_iff₀ two]
  have above : n.low * tenTo (-c.scale).toNat < c.coefficient * n.den * tenTo c.scale.toNat ↔
      b.mantissa - reach b.mantissa b.exponent < c.toRat / 2 ^ b.exponent := by
    rw [← Nat.cast_lt (α := ℚ), edge, point, mul_lt_mul_iff_of_pos_right unit, h.low, lt_div_iff₀ two]
  have below : c.coefficient * n.den * tenTo c.scale.toNat < n.high * tenTo (-c.scale).toNat ↔
      c.toRat / 2 ^ b.exponent < b.mantissa + 1 / 2 := by
    rw [← Nat.cast_lt (α := ℚ), edge, point, mul_lt_mul_iff_of_pos_right unit, h.high, div_lt_iff₀ two]
  simp only [contains]
  split
  case isTrue closed =>
    rw [Bool.and_eq_true, decide_eq_true_iff, decide_eq_true_iff, low, high]
    exact ⟨fun ⟨low, high⟩ => ⟨low, high, .inl (h.closed.mp closed)⟩, fun h => ⟨h.low, h.high⟩⟩
  case isFalse odd =>
    rw [Bool.and_eq_true, decide_eq_true_iff, decide_eq_true_iff, above, below]
    exact ⟨fun ⟨above, below⟩ => ⟨above.le, below.le, .inr ⟨above, below⟩⟩,
      fun r => r.ends.resolve_left (mt h.closed.mpr odd)⟩

theorem contains_of_onGrid? (h : n.onGrid? scale = some c) : n.contains c = true := by
  simp only [onGrid?] at h
  split at h
  case h_1 lower upper =>
    split at h <;> cases h
    · exact lower
    · exact upper
  case h_2 lower _ => cases h; exact lower
  case h_3 upper   => cases h; exact upper
  case h_4         => cases h

-- Two neighbours on a grid cannot both miss the numbers that round to a double if the grid is fine enough.
theorem isSome_onGrid? (h : n.Spans b.mantissa b.exponent)
    (fine : (10 : ℚ) ^ scale / 2 ^ b.exponent < reach b.mantissa b.exponent + 1 / 2) : (n.onGrid? scale).isSome := by
  have ten : (0 : ℚ) < 10 ^ scale := ten_pos scale
  have two : (0 : ℚ) < 2 ^ b.exponent := zpow_pos two_pos _
  have grid := inUnits_eq n.value n.den scale
  have pos : (0 : ℚ) < (inUnits n.value n.den scale).2 := by exact_mod_cast inUnits_pos h.pos scale
  generalize hu : inUnits n.value n.den scale = units at grid pos
  -- The double lies between its two neighbours.
  have below : ((units.1 / units.2 : Nat) : ℚ) * (10 ^ scale / 2 ^ b.exponent) ≤ b.mantissa := by
    rw [← mul_div_assoc, div_le_iff₀ two, ← le_div_iff₀ ten, ← h.value, ← grid]
    exact Nat.cast_div_le
  have above : b.mantissa < ((units.1 / units.2 + 1 : Nat) : ℚ) * (10 ^ scale / 2 ^ b.exponent) := by
    rw [← mul_div_assoc, lt_div_iff₀ two, ← div_lt_iff₀ ten, ← h.value, ← grid, div_lt_iff₀ pos]
    exact_mod_cast Nat.lt_mul_of_div_lt (Nat.lt_succ_self _) (by exact_mod_cast pos)
  have : n.contains ⟨units.1 / units.2, scale⟩ = true ∨ n.contains ⟨units.1 / units.2 + 1, scale⟩ = true := by
    rw [or_iff_not_imp_left, h.contains_iff, h.contains_iff, toRat, toRat]
    intro misses
    have far : ((units.1 / units.2 : Nat) : ℚ) * (10 ^ scale / 2 ^ b.exponent) ≤
        b.mantissa - reach b.mantissa b.exponent := by
      by_contra near
      rw [not_le, ← mul_div_assoc] at near
      rw [← mul_div_assoc] at below
      exact misses ⟨near.le, by linarith, .inr ⟨near, by linarith⟩⟩
    have next : ((units.1 / units.2 + 1 : Nat) : ℚ) * (10 ^ scale / 2 ^ b.exponent) < b.mantissa + 1 / 2 := by
      push_cast at *
      linarith
    have reached : 0 ≤ reach b.mantissa b.exponent := by
      rw [reach]
      split <;> norm_num
    rw [← mul_div_assoc] at above next
    exact ⟨by linarith, next.le, .inr ⟨by linarith, next⟩⟩
  simp only [onGrid?, hu]
  split
  case h_1          => split <;> rfl
  case h_2          => rfl
  case h_3          => rfl
  case h_4 no other => simp_all

theorem contains_of_firstHit? (h : n.firstHit? left scale = some c) : n.contains c = true := by
  induction left generalizing scale with
  | zero => cases h
  | succ left ih =>
    rw [firstHit?, Option.or_eq_some_iff] at h
    obtain hit | ⟨-, later⟩ := h
    · exact contains_of_onGrid? hit
    · exact ih later

theorem isSome_firstHit? {i : Nat} (hi : i < left) (h : (n.onGrid? (scale - i)).isSome) :
    (n.firstHit? left scale).isSome := by
  induction left generalizing scale i with
  | zero => omega
  | succ left ih =>
    rw [firstHit?, Option.isSome_or, Bool.or_eq_true]
    cases i with
    | zero   => exact .inl (by simpa using h)
    | succ i =>
      right
      refine ih (Nat.lt_of_succ_lt_succ hi) ?_
      rwa [Nat.cast_succ, ← sub_sub, sub_right_comm] at h

end Neighbourhood

theorem lead_le (canonical : Canonical b.mantissa b.exponent) (greatest : b.exponent ≤ 971) (hm : 0 < b.mantissa)
    (spans : n.Spans b.mantissa b.exponent) : (10 : ℚ) ^ leadingExponent n.value n.den ≤ b.mantissa * 2 ^ b.exponent := by
  have two : (0 : ℚ) < 2 ^ b.exponent := zpow_pos two_pos _
  have one : (1 : ℚ) ≤ b.mantissa := by exact_mod_cast hm
  have short : (b.mantissa : ℚ) < 2 ^ 53 := by exact_mod_cast canonical.short
  have least := canonical.least
  have value := spans.value
  have positive : 0 < n.value := by
    rw [Nat.pos_iff_ne_zero]
    intro zero
    have : (0 : ℚ) < b.mantissa * 2 ^ b.exponent := by positivity
    rw [← value, zero] at this
    simp at this
  rw [← value]
  refine leadingExponent_le positive spans.pos ?_ ?_ <;> rw [value]
  · calc (2 : ℚ) ^ (-1090 : Int) ≤ 2 ^ b.exponent := zpow_le_zpow_right₀ one_le_two (by omega)
      _ ≤ b.mantissa * 2 ^ b.exponent := le_mul_of_one_le_left two.le one
  · calc b.mantissa * (2 : ℚ) ^ b.exponent ≤ 2 ^ (53 : Int) * 2 ^ b.exponent :=
          mul_le_mul_of_nonneg_right (by exact_mod_cast short.le) two.le
      _ = 2 ^ (53 + b.exponent) := (zpow_add₀ two_ne_zero ..).symm
      _ ≤ 2 ^ (1090 : Int) := zpow_le_zpow_right₀ one_le_two (by omega)

-- Seventeen digits of a double are closer together than what rounds to it reaches.
theorem seventeen_digits (canonical : Canonical b.mantissa b.exponent) (lead : (10 : ℚ) ^ l ≤ b.mantissa * 2 ^ b.exponent) :
    (10 : ℚ) ^ (l - (16 : Nat)) / 2 ^ b.exponent < reach b.mantissa b.exponent + 1 / 2 := by
  have two : (0 : ℚ) < 2 ^ b.exponent := zpow_pos two_pos _
  have short : (b.mantissa : ℚ) < 2 ^ 53 := by exact_mod_cast canonical.short
  have within : (10 : ℚ) ^ l / 2 ^ b.exponent ≤ b.mantissa := by rwa [div_le_iff₀ two]
  rw [zpow_sub₀ (by norm_num), zpow_natCast, div_div, mul_comm, ← div_div, reach, div_lt_iff₀ (by positivity)]
  split
  case isTrue power =>
    have value : (b.mantissa : ℚ) = 2 ^ 52 := by
      rw [power.1, hidden_eq]
      norm_num
    rw [value] at within
    exact within.trans_lt (by norm_num)
  case isFalse => exact (within.trans_lt short).trans (by norm_num)

-- The search succeeds, at the latest with seventeen digits.
theorem shortest_roundsTo (canonical : Canonical b.mantissa b.exponent) (greatest : b.exponent ≤ 971)
    (hm : 0 < b.mantissa) : RoundsTo (shortest b).toRat b.mantissa b.exponent := by
  have spans := Neighbourhood.spans_of hm
  have fine := seventeen_digits canonical (lead_le canonical greatest hm spans)
  have hit := Neighbourhood.isSome_firstHit? (by decide : 16 < 17) (Neighbourhood.isSome_onGrid? spans fine)
  obtain ⟨c, hc⟩ := Option.isSome_iff_exists.mp hit
  have found : shortest b = c := by
    simp only [shortest, hc]
    rfl
  rw [found]
  exact spans.contains_iff.mp (Neighbourhood.contains_of_firstHit? hc)

theorem coefficient_pos (canonical : Canonical b.mantissa b.exponent) (greatest : b.exponent ≤ 971)
    (hm : 0 < b.mantissa) : 0 < (shortest b).coefficient := by
  rw [Nat.pos_iff_ne_zero]
  intro zero
  simpa [toRat, zero] using (shortest_roundsTo canonical greatest hm).pos hm

-- Whichever way a shortest decimal is split into digits and a scale, it is read as the double.
theorem ofDecimal_shortest {x : Float} {digits : Nat} {scale : Int} (h : ofFloat? x = some b) (hm : 0 < b.mantissa)
    (value : digits * (10 : ℚ) ^ scale = (shortest b).toRat) : ofDecimal b.negative digits scale = x := by
  have ⟨canonical, greatest⟩ := canonical_ofFloat? h
  rw [ofDecimal_eq canonical greatest hm (value ▸ shortest_roundsTo canonical greatest hm), pack_eq h]

end Decimal

end BoltzmannSampling
