import Mathlib
import BoltzmannSampling.Number.Number
import BoltzmannSampling.Proofs.Number.Binary64

/-!
Numbers that are equal by value. Above zero, equal doubles are one double, and an integer that equals a double is read
as this double. So equal positive numbers are the same number to all that computes in doubles, whether they are written
as integers or not, and being equal is an equivalence of theirs.
-/

namespace BoltzmannSampling

open Float.Model Float.Model.UnpackedFloat

namespace Binary64

theorem eq_of_unpack {x y : Float} (h : x.toModel.unpack = y.toModel.unpack) : x = y := by
  have packed (z : Float) : Float.ofModel (.pack z.toModel.unpack) = z := Float.ofBits_toBits z
  rw [← packed x, h, packed]

variable {x : Float} {b : Binary64} {m i : Nat} {e : Int}

theorem twoTo_eq (k : Nat) : twoTo k = 2 ^ k := rfl

theorem hidden_eq : hidden = 2 ^ 52 := rfl

-- The fields of a finite double: its sign, its exponent and the bits of its mantissa.
theorem exists_fields (h : ofFloat? x = some b) : ∃ sign biased fraction,
    x.toBits.toNat = sign + biased * 2 ^ 52 + fraction ∧ fraction < 2 ^ 52 ∧
      sign = (if b.negative then 2 ^ 63 else 0) ∧
      (biased = 0 ∧ b.mantissa = fraction ∧ b.exponent = -1074 ∨
        (0 < biased ∧ biased < 2047) ∧ b.mantissa = fraction + 2 ^ 52 ∧ b.exponent = biased - 1075) := by
  have bound : x.toBits.toNat < 2 ^ 64 := x.toBits.toBitVec.isLt
  have sign : (if x.toBits.toNat / twoTo 63 == 1 then 2 ^ 63 else 0) = x.toBits.toNat / 2 ^ 63 * 2 ^ 63 := by
    rw [twoTo_eq, beq_eq_decide]
    split
    case isTrue h  => rw [of_decide_eq_true h, one_mul]
    case isFalse h =>
      have := of_decide_eq_false (Bool.eq_false_of_not_eq_true h)
      omega
  refine ⟨x.toBits.toNat / 2 ^ 63 * 2 ^ 63, x.toBits.toNat / 2 ^ 52 % 2048, x.toBits.toNat % 2 ^ 52, by omega,
    Nat.mod_lt _ (by decide), ?_⟩
  simp only [ofFloat?] at h
  split at h
  case isTrue         => cases h
  case isFalse finite =>
    rw [hidden_eq] at finite
    split at h <;> cases h
    case isTrue zero    => exact ⟨sign.symm, .inl ⟨zero, rfl, rfl⟩⟩
    case isFalse normal =>
      rw [hidden_eq] at normal
      exact ⟨sign.symm, .inr ⟨by omega, rfl, rfl⟩⟩

-- The exponents of doubles, and the mantissas, which are full unless the exponent is the least.
theorem ofFloat?_bounds (h : ofFloat? x = some b) :
    b.mantissa < 2 * hidden ∧ (hidden ≤ b.mantissa ∨ b.exponent = leastExponent) := by
  obtain ⟨_, biased, fraction, -, short, -, fields⟩ := exists_fields h
  rw [hidden_eq, leastExponent]
  omega

-- Packing takes any finite double back.
theorem pack_eq (h : ofFloat? x = some b) : pack b.negative b.mantissa b.exponent = x := by
  obtain ⟨sign, biased, fraction, bits, short, rfl, fields⟩ := exists_fields h
  have greatest : ¬b.exponent > greatestExponent := by
    rw [greatestExponent]
    omega
  have magnitude : (if b.mantissa < hidden then b.mantissa else
      (b.exponent + 1075).toNat * hidden + (b.mantissa - hidden)) = biased * 2 ^ 52 + fraction := by
    rw [hidden_eq]
    split <;> omega
  rw [pack, if_neg greatest, magnitude, twoTo_eq, ← Nat.add_assoc, ← bits, UInt64.ofNat_toNat]
  exact Float.ofBits_toBits x

theorem roundDiv_mul {d : Nat} (h : 0 < d) : roundDiv (m * d) d = m := by
  simp [roundDiv, Nat.mul_div_cancel m h, h]

-- A natural number as a full mantissa times a power of two, or with one for a denominator.
structure Scaled (m : Nat) (e : Int) (i : Nat) : Prop where
  full  : 2 ^ 52 ≤ m
  bound : m < 2 ^ 53
  up    : 0 ≤ e → i = m * 2 ^ e.toNat
  down  : e ≤ 0 → i * 2 ^ (-e).toNat = m

theorem Scaled.pos (h : Scaled m e i) : 0 < i := by
  have full := h.full
  rcases Int.le_total 0 e with he | he
  · rw [h.up he]
    exact Nat.mul_pos (by omega) (Nat.two_pow_pos _)
  · have := h.down he
    exact Nat.pos_of_ne_zero fun hi => by simp [hi] at this; omega

theorem Scaled.log2 (h : Scaled m e i) : (i.log2 : Int) = e + 52 := by
  have log {k : Nat} (low : 2 ^ k ≤ i) (high : i < 2 ^ (k + 1)) : i.log2 = k :=
    (Nat.log2_eq_iff (Nat.ne_of_gt h.pos)).mpr ⟨low, high⟩
  rcases Int.le_total 0 e with he | he
  · obtain ⟨k, rfl⟩ := Int.eq_ofNat_of_zero_le he
    have value : i = m * 2 ^ k := h.up he
    have := log (k := 52 + k) (by rw [value, Nat.pow_add]; exact Nat.mul_le_mul_right _ h.full)
      (by rw [value, Nat.add_right_comm, Nat.pow_add]; exact Nat.mul_lt_mul_of_pos_right h.bound (Nat.two_pow_pos _))
    omega
  · obtain ⟨k, hk⟩ := Int.eq_ofNat_of_zero_le (Int.neg_nonneg.mpr he)
    have value : i * 2 ^ k = m := by simpa [hk] using h.down he
    have short : k ≤ 52 := by
      by_contra long
      have : 2 ^ 53 ≤ i * 2 ^ k := (Nat.pow_le_pow_right (by decide) (by omega)).trans (Nat.le_mul_of_pos_left _ h.pos)
      exact absurd h.bound (by omega)
    have split (n : Nat) (hn : k ≤ n) : 2 ^ n = 2 ^ (n - k) * 2 ^ k := by rw [← Nat.pow_add, Nat.sub_add_cancel hn]
    have low : 2 ^ (52 - k) ≤ i := Nat.le_of_mul_le_mul_right (split 52 short ▸ value ▸ h.full) (Nat.two_pow_pos k)
    have high : i < 2 ^ (52 - k + 1) := by
      refine Nat.lt_of_mul_lt_mul_right (a := 2 ^ k) ?_
      rw [value, ← Nat.pow_add, show 52 - k + 1 + k = 53 by omega]
      exact h.bound
    have := log low high
    omega

theorem exponentOf_nat (h : 0 < i) : exponentOf i 1 = (i.log2 : Int) - 52 := by
  have low : 2 ^ i.log2 ≤ i := Nat.log2_self_le h.ne'
  have one : Nat.log2 1 = 0 := by decide
  have guess : max ((i.log2 : Int) - (Nat.log2 1 : Int) - 53) leastExponent = i.log2 - 53 := by
    rw [one, leastExponent]
    omega
  -- One unit lower the mantissa is twice as large, and too large.
  have large : ¬(inUnits i 1 (i.log2 - 53)).1 < (inUnits i 1 (i.log2 - 53)).2 * twoTo 53 := by
    rw [inUnits, Nat.not_lt]
    split
    case isTrue he =>
      have split : ((i.log2 : Int) - 53).toNat + 53 = i.log2 := by omega
      simp only [twoTo_eq, one_mul, ← Nat.pow_add, split]
      exact low
    case isFalse he =>
      have split : i.log2 + (-((i.log2 : Int) - 53)).toNat = 53 := by omega
      simp only [twoTo_eq, one_mul]
      calc 2 ^ 53 = 2 ^ i.log2 * 2 ^ (-((i.log2 : Int) - 53)).toNat := by rw [← Nat.pow_add, split]
        _ ≤ i * 2 ^ (-((i.log2 : Int) - 53)).toNat := Nat.mul_le_mul_right _ low
  simp only [exponentOf, guess, if_neg large]
  omega

theorem Scaled.exponentOf (h : Scaled m e i) : exponentOf i 1 = e := by
  rw [exponentOf_nat h.pos, h.log2]
  omega

theorem Scaled.ofRatio (h : Scaled m e i) : ofRatio false i 1 = pack false m e := by
  have bound : m < twoTo 53 := by rw [twoTo_eq]; exact h.bound
  have round : roundDiv (inUnits i 1 e).1 (inUnits i 1 e).2 = m := by
    rw [inUnits]
    split
    case isTrue he  =>
      simp only [one_mul, twoTo_eq, h.up he]
      exact roundDiv_mul (Nat.two_pow_pos _)
    case isFalse he =>
      simp only [twoTo_eq, h.down (by omega)]
      simpa using roundDiv_mul (m := m) Nat.one_pos
  rw [Binary64.ofRatio, if_neg (Nat.ne_of_gt h.pos), h.exponentOf]
  simp only [round, if_pos bound]

theorem isFinite_of_ofFloat? (h : ofFloat? x = some b) : x.isFinite = true := by
  have hb : x.toBits.toNat = x.toModel.toBits.toBitVec.toNat := rfl
  have biased : x.toBits.toNat / hidden % 2048 ≠ 2047 := fun he => by simp [ofFloat?, he] at h
  rw [hb] at biased
  change (UnpackedFloat.unpack .binary64 x.toModel.toBits.toBitVec).isFinite = true
  simp only [UnpackedFloat.unpack]
  split
  case isTrue he => exact (biased <| (unpackExponent_toNat _).symm.trans (congrArg BitVec.toNat he)).elim
  case isFalse   =>
    split
    case isTrue  => split <;> rfl
    case isFalse => rfl

theorem exists_ofFloat? (finite : x.isFinite = true) : ∃ b, ofFloat? x = some b := by
  have hb : x.toBits.toNat = x.toModel.toBits.toBitVec.toNat := rfl
  change (UnpackedFloat.unpack .binary64 x.toModel.toBits.toBitVec).isFinite = true at finite
  have biased : x.toBits.toNat / hidden % 2048 ≠ 2047 := by
    intro he
    rw [hb] at he
    simp only [UnpackedFloat.unpack] at finite
    split at finite
    case isTrue     => split at finite <;> cases finite
    case isFalse ne => exact ne (BitVec.eq_of_toNat_eq ((unpackExponent_toNat _).trans he))
  simp only [ofFloat?, if_neg biased]
  split
  case isTrue  => exact ⟨_, rfl⟩
  case isFalse => exact ⟨_, rfl⟩

theorem ofFloat?_zero {s : Sign} (h : x.toModel.unpack = .zero s) : ∃ b, ofFloat? x = some b ∧ b.mantissa = 0 := by
  have hb : x.toBits.toNat = x.toModel.toBits.toBitVec.toNat := rfl
  change UnpackedFloat.unpack .binary64 x.toModel.toBits.toBitVec = .zero s at h
  simp only [UnpackedFloat.unpack] at h
  split at h
  case isTrue  => split at h <;> cases h
  case isFalse =>
    split at h
    case isFalse => cases h
    case isTrue he =>
      split at h
      case isFalse    => cases h
      case isTrue hm  =>
        have biased := (unpackExponent_toNat _).symm.trans (congrArg BitVec.toNat he)
        have fraction := (unpackMantissa_toNat _).symm.trans (congrArg BitVec.toNat hm)
        rw [← hb] at biased fraction
        simp only [BitVec.toNat_ofNat, Nat.zero_mod] at biased fraction
        simp [ofFloat?, biased, fraction]

theorem toRatio_pos (b : Binary64) : 0 < b.toRatio.2 := by
  simp only [toRatio]
  split <;> simp [twoTo_eq]

theorem not_negative (h : 0 < b.toRatio.1) : b.negative = false := by
  by_contra hn
  have hn : b.negative = true := by simpa using hn
  have le : b.toRatio.1 ≤ 0 := by
    simp only [toRatio, hn]
    split <;> simp [twoTo_eq]
  omega

-- A double that stands for an integer above zero has a full mantissa.
theorem scaled_of_toRatio (h : ofFloat? x = some b) (sign : b.negative = false) (positive : 0 < i)
    (value : (i : Int) * b.toRatio.2 = b.toRatio.1) : Scaled b.mantissa b.exponent i := by
  have ⟨bound, full⟩ := ofFloat?_bounds h
  have up (he : 0 ≤ b.exponent) : i = b.mantissa * 2 ^ b.exponent.toNat := by
    simp only [toRatio, sign, if_pos he, twoTo_eq] at value
    zify
    simpa using value
  have down (he : b.exponent ≤ 0) : i * 2 ^ (-b.exponent).toNat = b.mantissa := by
    by_cases hz : b.exponent = 0
    case pos => simpa [hz] using up hz.ge
    case neg =>
      simp only [toRatio, sign, if_neg (show ¬0 ≤ b.exponent by omega), twoTo_eq] at value
      zify
      simpa using value
  rw [hidden_eq] at bound full
  refine ⟨?full, by omega, up, down⟩
  rcases full with full | least
  · exact full
  · have value := down (by rw [least]; decide)
    rw [least] at value
    have large : 2 ^ 53 ≤ i * 2 ^ (-leastExponent).toNat :=
      (Nat.pow_le_pow_right (by decide) (by decide)).trans (Nat.le_mul_of_pos_left _ positive)
    omega

-- An integer that a double stands for is read as this double.
theorem ofInt?_of_toRatio {n : Int} (h : ofFloat? x = some b) (positive : 0 < n)
    (value : n * b.toRatio.2 = b.toRatio.1) : ofInt? n = some x := by
  have sign := not_negative (value ▸ Int.mul_pos positive (Int.natCast_pos.mpr b.toRatio_pos))
  obtain ⟨i, rfl⟩ := Int.eq_ofNat_of_zero_le positive.le
  have scaled := scaled_of_toRatio h sign (by omega) value
  have nearest : Binary64.ofRatio ((i : Int) < 0) (i : Int).natAbs 1 = x := by
    have whole : ¬(i : Int) < 0 := by omega
    simp only [whole, decide_false, Int.natAbs_natCast]
    rw [scaled.ofRatio, ← sign, pack_eq h]
  rw [ofInt?]
  simp only [nearest, isFinite_of_ofFloat? h, if_true]

end Binary64

namespace Number

open Binary64

variable {x y : Float} {a b c : Number}

-- Numbers above zero, which settings have to be.
def Positive (n : Number) : Prop := Number.lt (.int 0) n = true

theorem compareIntFloat_eq {i : Int} (h : compareIntFloat i x = some .eq) :
    ∃ b, ofFloat? x = some b ∧ i * b.toRatio.2 = b.toRatio.1 := by
  rw [compareIntFloat] at h
  cases hx : ofFloat? x <;> rw [hx] at h
  case none =>
    simp only at h
    split at h <;> (try split at h) <;> simp at h
  case some b => exact ⟨b, rfl, by simpa using h⟩

theorem Positive.int {i : Int} (h : Positive (.int i)) : 0 < i := by
  simpa [Positive, lt, compare?, Int.compare_eq_lt] using h

theorem not_isNaN (finite : x.isFinite = true) : x.isNaN = false := by
  have hf : x.toModel.unpack.isFinite = true := finite
  change x.toModel.unpack.isNaN = false
  cases hx : x.toModel.unpack <;> rw [hx] at hf
  case notANumber               => cases hf
  case infinity | zero | finite => rfl

theorem Positive.float (h : Positive (.float x)) : x.isNaN = false ∧ ∀ s, x.toModel.unpack ≠ .zero s := by
  have hc : compareIntFloat 0 x = some .lt := by simpa [Positive, lt, compare?] using h
  rw [compareIntFloat] at hc
  constructor
  · cases hx : ofFloat? x <;> rw [hx] at hc
    case some => exact not_isNaN (isFinite_of_ofFloat? hx)
    case none =>
      by_contra hn
      simp only [if_pos (Bool.of_not_eq_false hn)] at hc
      cases hc
  · intro s hz
    have ⟨b, hb, hm⟩ := ofFloat?_zero hz
    have value : b.toRatio.1 = 0 := by
      simp only [toRatio, hm]
      split <;> simp
    simp [hb, value] at hc

theorem compare_self {u : UnpackedFloat} (h : u.isNaN = false) : u.compare u = some .eq := by
  cases u
  case notANumber     => cases h
  case zero           => rfl
  case infinity s     => cases s <;> rfl
  case finite s m e _ => cases s <;> simp [UnpackedFloat.compare]

theorem same_self (h : x.isNaN = false) : (Number.float x).same (.float x) = true := by
  have self : x.toModel.unpack.compare x.toModel.unpack = some .eq := compare_self h
  have less : ¬x < x := by
    intro h
    have hl : (x.toModel.unpack.compare x.toModel.unpack == some .lt) = true := of_decide_eq_true h
    rw [self] at hl
    cases hl
  have equal : (x == x) = true := by
    change (x.toModel.unpack.compare x.toModel.unpack == some .eq) = true
    rw [self]
    rfl
  simp [same, compare?, less, equal]

-- Only zeros differ and compare as equal.
theorem eq_of_compare {u v : UnpackedFloat} (h : u.compare v = some .eq) : u = v ∨ ∃ s, u = .zero s := by
  cases u <;> cases v
  case infinity.infinity s s' =>
    cases s <;> cases s' <;> first | exact .inl rfl | cases h
  case zero.zero => exact .inr ⟨_, rfl⟩
  case finite.finite s m e _ s' m' e' _ =>
    cases s <;> cases s' <;> simp [UnpackedFloat.compare, Ordering.then_eq_eq, Ordering.swap_eq_eq] at h
    all_goals simp [h]
  case infinity.zero s _ | infinity.finite s _ _ _ _ | zero.infinity s | finite.infinity s => cases s <;> cases h
  case zero.finite s _ _ _ | finite.zero s _ _ _ _ => cases s <;> cases h
  all_goals cases h

theorem compare_of_same (h : (Number.float x).same (.float y) = true) :
    x.toModel.unpack.compare y.toModel.unpack = some .eq := by
  have equal : (x == y) = true := by
    simp only [same, compare?, beq_iff_eq] at h
    split at h
    case isTrue  => cases h
    case isFalse =>
      split at h
      case isTrue  => cases h
      case isFalse =>
        split at h
        case isTrue he => exact he
        case isFalse   => cases h
  exact beq_iff_eq.mp (show (x.toModel.unpack.compare y.toModel.unpack == some .eq) = true from equal)

-- Equal doubles are one double, of which the first at least is above zero.
theorem eq_of_same (hx : Positive (.float x)) (h : (Number.float x).same (.float y) = true) : x = y := by
  rcases eq_of_compare (compare_of_same h) with he | ⟨s, hz⟩
  · exact eq_of_unpack he
  · exact absurd hz (hx.float.2 s)

theorem eq_of_same_positive (hy : Positive (.float y)) (h : (Number.float x).same (.float y) = true) : x = y := by
  have equal := compare_of_same h
  rcases eq_of_compare equal with he | ⟨s, hz⟩
  · exact eq_of_unpack he
  · rw [hz] at equal
    cases hv : y.toModel.unpack <;> rw [hv] at equal
    case zero s' => exact absurd hv (hy.float.2 s')
    case infinity s' | finite s' _ _ _ => cases s' <;> cases equal
    case notANumber => cases equal

theorem same_int {i j : Int} : (Number.int i).same (.int j) = true ↔ i = j := by
  simp [same, compare?]

theorem same_int_float {i : Int} : (Number.int i).same (.float x) = true ↔ compareIntFloat i x = some .eq := by
  simp [same, compare?]

theorem same_float_int {i : Int} : (Number.float x).same (.int i) = true ↔ compareIntFloat i x = some .eq := by
  simp [same, compare?, Ordering.swap_eq_eq]

theorem ofInt?_of_compare {i : Int} (hi : Positive (.int i)) (h : compareIntFloat i x = some .eq) : ofInt? i = some x :=
  have ⟨_, hx, value⟩ := compareIntFloat_eq h
  ofInt?_of_toRatio hx hi.int value

theorem same_refl (ha : a.Positive) : a.same a = true := by
  cases a
  case int i   => exact same_int.mpr rfl
  case float x => exact same_self ha.float.1

theorem same_symm (ha : a.Positive) (h : a.same b = true) : b.same a = true := by
  cases a <;> cases b
  case int.int     => exact same_int.mpr (same_int.mp h).symm
  case int.float   => exact same_float_int.mpr (same_int_float.mp h)
  case float.int   => exact same_int_float.mpr (same_float_int.mp h)
  case float.float =>
    rw [← eq_of_same ha h]
    exact same_refl ha

theorem same_trans (ha : a.Positive) (hb : b.Positive) (hab : a.same b = true) (hbc : b.same c = true) :
    a.same c = true := by
  cases a <;> cases b
  case int.int     => exact same_int.mp hab ▸ hbc
  case float.float => exact eq_of_same ha hab ▸ hbc
  case int.float i x =>
    have hi := same_int_float.mp hab
    cases c
    case float => exact eq_of_same hb hbc ▸ hab
    case int k =>
      -- Both integers are the value of the double.
      have ⟨y, hy, vi⟩ := compareIntFloat_eq hi
      have ⟨z, hz, vk⟩ := compareIntFloat_eq (same_float_int.mp hbc)
      cases hy.symm.trans hz
      have pos : (y.toRatio.2 : Int) ≠ 0 := Int.natCast_ne_zero.mpr (Nat.ne_of_gt y.toRatio_pos)
      exact same_int.mpr (Int.eq_of_mul_eq_mul_right pos (vi.trans vk.symm))
  case float.int x j =>
    cases c
    case int     => exact same_int.mp hbc ▸ hab
    case float y =>
      have hx := ofInt?_of_compare hb (same_float_int.mp hab)
      have hy := ofInt?_of_compare hb (same_int_float.mp hbc)
      rw [Option.some_inj.mp (hx.symm.trans hy)] at ha ⊢
      exact same_refl ha

-- Equal numbers are read as one double.
theorem toFloat?_eq (ha : a.Positive) (hb : b.Positive) (h : a.same b = true) : a.toFloat? = b.toFloat? := by
  cases a <;> cases b
  case int.int     => exact congrArg ofInt? (same_int.mp h)
  case int.float   => exact ofInt?_of_compare ha (same_int_float.mp h)
  case float.int   => exact (ofInt?_of_compare hb (same_float_int.mp h)).symm
  case float.float => exact congrArg some (eq_of_same ha h)

end Number

end BoltzmannSampling
