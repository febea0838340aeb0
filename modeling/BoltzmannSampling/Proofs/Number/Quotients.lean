import Mathlib
import BoltzmannSampling.Proofs.Number.Halving

/-!
Doubles nearest to quotients. A double is the nearest to the quotients that lie at most half a unit of its last bit away
from it, but only a quarter below a power of two, where doubles get denser. At the ends of this range it has to have an
even mantissa.
-/

namespace BoltzmannSampling

namespace Binary64

variable {x : Float} {b : Binary64} {num den m n d : Nat} {e : Int} {r : ℚ}

theorem canonical_ofFloat? (h : ofFloat? x = some b) : Canonical b.mantissa b.exponent ∧ b.exponent ≤ 971 := by
  obtain ⟨_, biased, fraction, -, short, -, fields⟩ := exists_fields h
  exact ⟨⟨by omega, by omega, by omega⟩, by omega⟩

section Units

theorem tenTo_eq (k : Nat) : tenTo k = 10 ^ k := rfl

-- A quotient in units of a power.
def unitsOf (base num den : Nat) (e : Int) : Nat × Nat :=
  if 0 ≤ e then (num, den * base ^ e.toNat) else (num * base ^ (-e).toNat, den)

theorem unitsOf_pos {base : Nat} (hb : 0 < base) (h : 0 < den) (e : Int) : 0 < (unitsOf base num den e).2 := by
  rw [unitsOf]
  split
  case isTrue  => exact Nat.mul_pos h (Nat.pow_pos hb)
  case isFalse => exact h

theorem unitsOf_eq {base : Nat} (hb : 0 < base) (num den : Nat) (e : Int) :
    ((unitsOf base num den e).1 : ℚ) / (unitsOf base num den e).2 = num / den / base ^ e := by
  have pos : (0 : ℚ) < base := by exact_mod_cast hb
  rw [unitsOf]
  split
  case isTrue he =>
    obtain ⟨k, rfl⟩ := Int.eq_ofNat_of_zero_le he
    simp [div_div]
  case isFalse he =>
    obtain ⟨k, hk⟩ := Int.eq_ofNat_of_zero_le (show 0 ≤ -e by omega)
    obtain rfl : e = -k := by omega
    simp
    ring

theorem inUnits_pos (h : 0 < den) (e : Int) : 0 < (inUnits num den e).2 :=
  unitsOf_pos two_pos h e

theorem inUnits_eq (num den : Nat) (e : Int) :
    ((inUnits num den e).1 : ℚ) / (inUnits num den e).2 = num / den / 2 ^ e := by
  exact_mod_cast unitsOf_eq two_pos num den e

-- The only natural number at most half away, which has to be even if it is half away.
theorem roundDiv_eq (hd : 0 < d) (low : (m : ℚ) - 1 / 2 ≤ n / d) (high : (n : ℚ) / d ≤ m + 1 / 2)
    (ends : m % 2 = 0 ∨ (m : ℚ) - 1 / 2 < n / d ∧ (n : ℚ) / d < m + 1 / 2) : roundDiv n d = m := by
  have pos : (0 : ℚ) < d := by exact_mod_cast hd
  rw [le_div_iff₀ pos] at low
  rw [div_le_iff₀ pos] at high
  rw [lt_div_iff₀ pos, div_lt_iff₀ pos] at ends
  have value := Nat.div_add_mod n d
  have rest := Nat.mod_lt n hd
  have low : 2 * (m * d) ≤ 2 * n + d := by
    have : (2 * (m * d) : ℚ) ≤ 2 * n + d := by linarith
    exact_mod_cast this
  have high : 2 * n ≤ 2 * (m * d) + d := by
    have : (2 * n : ℚ) ≤ 2 * (m * d) + d := by linarith
    exact_mod_cast this
  have ends : m % 2 = 0 ∨ 2 * (m * d) < 2 * n + d ∧ 2 * n < 2 * (m * d) + d := by
    refine ends.imp_right fun ⟨low, high⟩ => ⟨?_, ?_⟩
    · have : (2 * (m * d) : ℚ) < 2 * n + d := by linarith
      exact_mod_cast this
    · have : (2 * n : ℚ) < 2 * (m * d) + d := by linarith
      exact_mod_cast this
  rw [roundDiv]
  generalize n / d = q at *
  generalize n % d = k at *
  -- It is the floor or the number after it.
  have most : m ≤ q + 1 := by
    have : m * d < (q + 2) * d := by linarith
    have := Nat.lt_of_mul_lt_mul_right this
    omega
  have least : q ≤ m := by
    have : q * d < (m + 1) * d := by linarith
    have := Nat.lt_of_mul_lt_mul_right this
    omega
  rcases Nat.lt_or_eq_of_le least with next | here
  · have product : m * d = d * q + d := by
      rw [show m = q + 1 by omega]
      ring
    split_ifs <;> omega
  · have product : m * d = d * q := by rw [here, Nat.mul_comm]
    split_ifs <;> omega

-- The first place of a quotient lies between those of its two parts.
theorem quotient_bounds (hn : 0 < num) (hd : 0 < den) :
    (2 : ℚ) ^ ((num.log2 : Int) - den.log2 - 1) < num / den ∧ (num : ℚ) / den < 2 ^ ((num.log2 : Int) - den.log2 + 1) := by
  have low {k : Nat} (hk : 0 < k) : (2 : ℚ) ^ (k.log2 : Int) ≤ k := by
    rw [zpow_natCast]
    exact_mod_cast Nat.log2_self_le hk.ne'
  have high (k : Nat) : (k : ℚ) < 2 ^ ((k.log2 : Int) + 1) := by
    have := Nat.lt_log2_self (n := k)
    exact_mod_cast this
  have pos : (0 : ℚ) < den := by exact_mod_cast hd
  have two (k : Int) : (0 : ℚ) < 2 ^ k := zpow_pos (by norm_num) k
  constructor
  · rw [lt_div_iff₀ pos, sub_sub, zpow_sub₀ two_ne_zero, div_mul_eq_mul_div, div_lt_iff₀ (two _)]
    exact mul_lt_mul' (low hn) (high den) pos.le (by exact_mod_cast hn)
  · rw [div_lt_iff₀ pos, sub_add_eq_add_sub, zpow_sub₀ two_ne_zero, div_mul_eq_mul_div, lt_div_iff₀ (two _)]
    exact mul_lt_mul (high num) (low hd) (two _) (two _).le

-- A quotient has 53 bits in the units of its nearest double, unless they are the least.
theorem exponentOf_spec (hn : 0 < num) (hd : 0 < den) : -1074 ≤ exponentOf num den ∧
    (num : ℚ) / den < 2 ^ 53 * 2 ^ exponentOf num den ∧
      (exponentOf num den = -1074 ∨ (2 : ℚ) ^ 52 * 2 ^ exponentOf num den ≤ num / den) := by
  have ⟨low, high⟩ := quotient_bounds hn hd
  have mono {a b : Int} (h : a ≤ b) : (2 : ℚ) ^ a ≤ 2 ^ b := zpow_le_zpow_right₀ one_le_two h
  have add (k : Nat) (a : Int) : (2 : ℚ) ^ k * 2 ^ a = 2 ^ (k + a) := by
    rw [zpow_add₀ two_ne_zero, zpow_natCast]
  generalize hg : max ((num.log2 : Int) - (den.log2 : Int) - 53) leastExponent = guess
  rw [leastExponent] at hg
  have test : (inUnits num den guess).1 < (inUnits num den guess).2 * twoTo 53 ↔
      (num : ℚ) / den < 2 ^ 53 * 2 ^ guess := by
    have pos : (0 : ℚ) < (inUnits num den guess).2 := by exact_mod_cast inUnits_pos hd guess
    rw [← div_lt_iff₀ (zpow_pos two_pos guess), ← inUnits_eq, div_lt_iff₀ pos, twoTo_eq, mul_comm ((2 : ℚ) ^ 53)]
    exact_mod_cast Iff.rfl
  have exponent : exponentOf num den = if (num : ℚ) / den < 2 ^ 53 * 2 ^ guess then guess else guess + 1 := by
    rw [← if_congr test rfl rfl, ← hg]
    rfl
  rw [exponent]
  split
  case isTrue fits =>
    refine ⟨by omega, fits, ?_⟩
    by_cases least : guess = -1074
    case pos => exact .inl least
    case neg =>
      right
      rw [add]
      exact (mono (by omega)).trans low.le
  case isFalse large =>
    rw [not_lt, add] at large
    refine ⟨by omega, ?_, .inr ?_⟩
    · rw [add]
      exact high.trans_le (mono (by omega))
    · rw [add]
      exact (mono (by omega)).trans large

end Units

section Range

-- How far below a double the numbers that round to it begin, in units of its last bit.
def reach (m : Nat) (e : Int) : ℚ := if m = hidden ∧ leastExponent < e then 1 / 4 else 1 / 2

theorem reach_le (m : Nat) (e : Int) : reach m e ≤ 1 / 2 := by
  rw [reach]
  split <;> norm_num

-- The numbers that round to a double.
structure RoundsTo (r : ℚ) (m : Nat) (e : Int) : Prop where
  low  : m - reach m e ≤ r / 2 ^ e
  high : r / 2 ^ e ≤ m + 1 / 2
  ends : m % 2 = 0 ∨ m - reach m e < r / 2 ^ e ∧ r / 2 ^ e < m + 1 / 2

theorem RoundsTo.pos (h : RoundsTo r m e) (hm : 0 < m) : 0 < r := by
  have one : (1 : ℚ) ≤ m := by exact_mod_cast hm
  have : 0 < r / 2 ^ e := by linarith [h.low, reach_le m e]
  exact (div_pos_iff_of_pos_right (zpow_pos two_pos e)).mp this

theorem ofRatio_of_lt {negative : Bool} (hn : 0 < num) (he : exponentOf num den = e)
    (rounded : roundDiv (inUnits num den e).1 (inUnits num den e).2 = m) (short : m < 2 ^ 53) :
    ofRatio negative num den = pack negative m e := by
  have fits : m < twoTo 53 := by rwa [twoTo_eq]
  rw [ofRatio, if_neg hn.ne', he]
  simp only [rounded, if_pos fits]

theorem ofRatio_of_carry {negative : Bool} (hn : 0 < num) (he : exponentOf num den = e)
    (rounded : roundDiv (inUnits num den e).1 (inUnits num den e).2 = 2 ^ 53) :
    ofRatio negative num den = pack negative hidden (e + 1) := by
  have long : ¬2 ^ 53 < twoTo 53 := by rw [twoTo_eq]; exact lt_irrefl _
  rw [ofRatio, if_neg hn.ne', he]
  simp only [rounded, if_neg long]

theorem RoundsTo.below (h : RoundsTo (num / den) m e) (canonical : Canonical m e) :
    (num : ℚ) / den < 2 ^ 53 * 2 ^ e := by
  have short : (m : ℚ) + 1 ≤ 2 ^ 53 := by exact_mod_cast canonical.short
  rw [← div_lt_iff₀ (zpow_pos two_pos e)]
  linarith [h.high]

theorem RoundsTo.exponentOf_le (h : RoundsTo (num / den) m e) (canonical : Canonical m e) (hn : 0 < num) (hd : 0 < den) :
    exponentOf num den ≤ e := by
  obtain ⟨-, -, full⟩ := exponentOf_spec hn hd
  by_contra more
  have full := full.resolve_left (by have := canonical.least; omega)
  have double : (2 : ℚ) ^ (e + 1) ≤ 2 ^ exponentOf num den := zpow_le_zpow_right₀ one_le_two (by omega)
  rw [zpow_add_one₀ two_ne_zero] at double
  linarith [h.below canonical]

-- A quotient in smaller units than its double lies just below a power of two, where doubles are denser.
theorem RoundsTo.exponentOf_lt (h : RoundsTo (num / den) m e) (canonical : Canonical m e) (hn : 0 < num) (hd : 0 < den)
    (less : exponentOf num den < e) : exponentOf num den = e - 1 ∧ m = 2 ^ 52 := by
  obtain ⟨least, below, -⟩ := exponentOf_spec hn hd
  have two (k : Int) : (0 : ℚ) < 2 ^ k := zpow_pos two_pos k
  have low := h.low
  have reached := reach_le m e
  have normal := canonical.normal.resolve_right (by omega)
  have denser (k : Nat) (hk : exponentOf num den + k ≤ e) : (2 : ℚ) ^ k * (num / den / 2 ^ e) < 2 ^ 53 := by
    have : (2 : ℚ) ^ k * 2 ^ exponentOf num den ≤ 2 ^ e := by
      rw [← zpow_natCast, ← zpow_add₀ two_ne_zero]
      exact zpow_le_zpow_right₀ one_le_two (by omega)
    rw [← mul_div_assoc, div_lt_iff₀ (two e)]
    calc (2 : ℚ) ^ k * (num / den) < 2 ^ k * (2 ^ 53 * 2 ^ exponentOf num den) :=
          mul_lt_mul_of_pos_left below (pow_pos two_pos k)
      _ = 2 ^ 53 * (2 ^ k * 2 ^ exponentOf num den) := by ring
      _ ≤ 2 ^ 53 * 2 ^ e := mul_le_mul_of_nonneg_left this (by norm_num)
  have power : m = 2 ^ 52 := by
    have : (m : ℚ) < 2 ^ 52 + 1 := by linarith [denser 1 (by omega)]
    have : m < 2 ^ 52 + 1 := by exact_mod_cast this
    omega
  refine ⟨?_, power⟩
  by_contra other
  have value : (m : ℚ) = 2 ^ 52 := by exact_mod_cast power
  rw [value] at low
  linarith [denser 2 (by omega)]

-- A quotient is read as the double that it rounds to.
theorem ofRatio_eq (canonical : Canonical m e) (hn : 0 < num) (hd : 0 < den) (h : RoundsTo (num / den) m e)
    (negative : Bool) : ofRatio negative num den = pack negative m e := by
  have units := inUnits_eq num den
  have positive (e : Int) : 0 < (inUnits num den e).2 := inUnits_pos hd e
  rcases (h.exponentOf_le canonical hn hd).lt_or_eq with less | he
  · obtain ⟨he, power⟩ := h.exponentOf_lt canonical hn hd less
    obtain ⟨least, below, -⟩ := exponentOf_spec hn hd
    have quarter : reach m e = 1 / 4 := if_pos ⟨power.trans hidden_eq.symm, by rw [leastExponent]; omega⟩
    have value : (m : ℚ) = 2 ^ 52 := by exact_mod_cast power
    have low := h.low
    rw [quarter, value] at low
    have twice : (num : ℚ) / den / 2 ^ (e - 1) = 2 * (num / den / 2 ^ e) := by
      rw [zpow_sub_one₀ two_ne_zero]
      field_simp
    have rounded : roundDiv (inUnits num den (e - 1)).1 (inUnits num den (e - 1)).2 = 2 ^ 53 := by
      have up : ((2 ^ 53 : Nat) : ℚ) = 2 ^ 53 := by norm_num
      rw [he, ← div_lt_iff₀ (zpow_pos two_pos _)] at below
      refine roundDiv_eq (positive _) ?_ ?_ (.inl (by norm_num))
      all_goals rw [units, up]
      · linarith
      · linarith
    rw [ofRatio_of_carry hn he rounded, Int.sub_add_cancel, power, hidden_eq]
  · have rounded : roundDiv (inUnits num den e).1 (inUnits num den e).2 = m := by
      refine roundDiv_eq (positive e) ?_ ?_ ?_
      all_goals rw [units]
      · linarith [h.low, reach_le m e]
      · exact h.high
      · exact h.ends.imp_right fun ends => ⟨by linarith [ends.1, reach_le m e], ends.2⟩
    exact ofRatio_of_lt hn he rounded canonical.short

-- What rounds to a double lies in the range of scales that are not cut short.
theorem RoundsTo.bounds (h : RoundsTo r m e) (canonical : Canonical m e) (greatest : e ≤ 971) (hm : 0 < m) :
    (10 : ℚ) ^ (-400 : Int) ≤ r ∧ r < 10 ^ (400 : Int) := by
  have two (k : Int) : (0 : ℚ) < 2 ^ k := zpow_pos two_pos k
  have one : (1 : ℚ) ≤ m := by exact_mod_cast hm
  have short : (m : ℚ) + 1 ≤ 2 ^ 53 := by exact_mod_cast canonical.short
  -- Three powers of two are less than one of ten.
  have eight (k : Nat) : (2 : ℚ) ^ (3 * k) ≤ 10 ^ k := by
    rw [pow_mul]
    exact pow_le_pow_left₀ (by norm_num) (by norm_num) k
  constructor
  · have low : 2 ^ (-1 : Int) ≤ r / 2 ^ e := by linarith [h.low, reach_le m e]
    rw [le_div_iff₀ (two e), ← zpow_add₀ two_ne_zero] at low
    have least : (2 : ℚ) ^ (-1075 : Int) ≤ 2 ^ (-1 + e) := by
      have := canonical.least
      exact zpow_le_zpow_right₀ one_le_two (by omega)
    refine le_trans ?_ (least.trans low)
    rw [show (-400 : Int) = -(400 : Nat) by rfl, show (-1075 : Int) = -(1075 : Nat) by rfl, zpow_neg, zpow_neg,
      zpow_natCast, zpow_natCast, inv_le_inv₀ (by positivity) (by positivity)]
    exact (pow_le_pow_right₀ one_le_two (by decide)).trans (eight 400)
  · have high : r / 2 ^ e < 2 ^ (53 : Int) := by
      have : ((2 : ℚ) ^ (53 : Int)) = 2 ^ 53 := zpow_natCast 2 53
      linarith [h.high]
    rw [div_lt_iff₀ (two e), ← zpow_add₀ two_ne_zero] at high
    refine high.trans_le ((zpow_le_zpow_right₀ one_le_two (show 53 + e ≤ (1200 : Nat) by omega)).trans ?_)
    rw [zpow_natCast]
    exact eight 400

-- Decimals in this range are not cut short.
theorem scale_bounds {digits : Nat} {scale : Int} (positive : 0 < digits)
    (least : (10 : ℚ) ^ (-400 : Int) ≤ digits * 10 ^ scale) (most : digits * (10 : ℚ) ^ scale < 10 ^ (400 : Int)) :
    ¬400 < scale ∧ ¬scale + ((digits.log2 / 3 : Nat) + 1 : Int) < -400 := by
  have ten : (0 : ℚ) < 10 ^ scale := zpow_pos (by norm_num) scale
  have one : (1 : ℚ) ≤ digits := by exact_mod_cast positive
  constructor
  · intro large
    have : (10 : ℚ) ^ (400 : Int) ≤ 10 ^ scale := zpow_le_zpow_right₀ (by norm_num) large.le
    exact (this.trans (le_mul_of_one_le_left ten.le one)).not_gt most
  · intro small
    have bound : (digits : ℚ) ≤ 10 ^ ((digits.log2 / 3 : Nat) + 1 : Int) := by
      have : digits ≤ 10 ^ (digits.log2 / 3 + 1) := by
        calc digits ≤ 2 ^ (digits.log2 + 1) := Nat.lt_log2_self.le
          _ ≤ 2 ^ (3 * (digits.log2 / 3 + 1)) := Nat.pow_le_pow_right (by decide) (by omega)
          _ = 8 ^ (digits.log2 / 3 + 1) := Nat.pow_mul 2 3 _
          _ ≤ 10 ^ (digits.log2 / 3 + 1) := Nat.pow_le_pow_left (by decide) _
      exact_mod_cast this
    have : (10 : ℚ) ^ ((digits.log2 / 3 : Nat) + 1 : Int) * 10 ^ scale < 10 ^ (-400 : Int) := by
      rw [← zpow_add₀ (by norm_num)]
      exact zpow_lt_zpow_right₀ (by norm_num) (by omega)
    linarith [mul_le_mul_of_nonneg_right bound ten.le]

-- A decimal is read as the double that it rounds to.
theorem ofDecimal_eq {digits : Nat} {scale : Int} (canonical : Canonical m e) (greatest : e ≤ 971) (hm : 0 < m)
    (h : RoundsTo (digits * 10 ^ scale) m e) (negative : Bool) : ofDecimal negative digits scale = pack negative m e := by
  have positive : 0 < digits := by
    rw [Nat.pos_iff_ne_zero]
    rintro rfl
    simpa using h.pos hm
  obtain ⟨least, most⟩ := h.bounds canonical greatest hm
  obtain ⟨high, low⟩ := scale_bounds positive least most
  simp only [ofDecimal, if_neg positive.ne', if_neg high]
  rw [if_neg (by exact_mod_cast low)]
  split
  case isTrue up =>
    obtain ⟨k, rfl⟩ := Int.eq_ofNat_of_zero_le up
    have value : ((digits * tenTo (k : Int).toNat : Nat) : ℚ) / (1 : Nat) = digits * 10 ^ (k : Int) := by
      simp [tenTo_eq]
    exact ofRatio_eq canonical (Nat.mul_pos positive (Nat.pow_pos (by decide))) one_pos (value ▸ h) negative
  case isFalse down =>
    obtain ⟨k, hk⟩ := Int.eq_ofNat_of_zero_le (show 0 ≤ -scale by omega)
    obtain rfl : scale = -k := by omega
    have value : (digits : ℚ) / (tenTo (- -(k : Int)).toNat : Nat) = digits * 10 ^ (-(k : Int)) := by
      simp [tenTo_eq, div_eq_mul_inv]
    exact ofRatio_eq canonical positive (Nat.pow_pos (by decide)) (value ▸ h) negative

end Range

end Binary64

end BoltzmannSampling
