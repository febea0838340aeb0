import Mathlib
import BoltzmannSampling.Proofs.Number.Binary64

/-!
The order of doubles. They are compared by the places at which they stand, of which a number that is none has none; so
the order is transitive, and total on the others. The zeros of both signs stand at one place, so that adding one of them
changes no comparison.
-/

namespace BoltzmannSampling

open Float.Model Float.Model.UnpackedFloat

namespace Binary64

variable {x y z p u : Float}

theorem le_iff : x ≤ u ↔ x.toModel.unpack.le u.toModel.unpack = true := decide_eq_true_iff

-- By sign first, then by exponent and last by mantissa. This is the order of the values, since mantissas are as long as
-- they can be.
def place : UnpackedFloat → Option (ℤ ×ₗ ℤ ×ₗ ℤ)
  | .notANumber             => none
  | .infinity .negative     => some (toLex (-2, toLex (0, 0)))
  | .finite .negative m e _ => some (toLex (-1, toLex (-e, -m)))
  | .zero _                 => some (toLex (0, toLex (0, 0)))
  | .finite .positive m e _ => some (toLex (1, toLex (e, m)))
  | .infinity .positive     => some (toLex (2, toLex (0, 0)))

theorem compare_place (u v : UnpackedFloat) :
    u.compare v = (place u).bind fun a => (place v).map (compare a) := by
  have lex {α β : Type} [LinearOrder α] [LinearOrder β] (a c : α) (b d : β) :
      compare (toLex (a, b)) (toLex (c, d)) = (compare a c).then (compare b d) := rfl
  have nat (a b : ℕ) : compare (a : ℤ) (b : ℤ) = compare a b := by
    simp [compare, compareOfLessAndEq]
  have neg (a b : ℤ) : compare (-a) (-b) = compare b a := by
    rcases lt_trichotomy a b with h | h | h
    · rw [compare_gt_iff_gt.mpr h, compare_gt_iff_gt.mpr (neg_lt_neg h)]
    · simp [h]
    · rw [compare_lt_iff_lt.mpr h, compare_lt_iff_lt.mpr (neg_lt_neg h)]
  cases u <;> cases v
  case finite.finite s _ _ _ s' _ _ _ =>
    cases s <;> cases s'
    case negative.negative =>
      simp [UnpackedFloat.compare, place, lex, neg, nat, Ordering.swap_then, ← Std.OrientedCmp.eq_swap]
    case positive.positive => simp [UnpackedFloat.compare, place, lex, nat]
    all_goals rfl
  case infinity.infinity s s' | infinity.finite s s' _ _ _ | finite.infinity s _ _ _ s' => cases s <;> cases s' <;> rfl
  case infinity.zero s _ | zero.infinity s | zero.finite s _ _ _ | finite.zero s _ _ _ _ => cases s <;> rfl
  case infinity.notANumber s | finite.notANumber s _ _ _ => cases s <;> rfl
  all_goals rfl

theorem unpacked_le_iff {u v : UnpackedFloat} :
    u.le v = true ↔ ∃ a b, place u = some a ∧ place v = some b ∧ a ≤ b := by
  rw [UnpackedFloat.le, compare_place]
  cases place u <;> cases place v <;> simp [← Ordering.ne_gt_iff_isLE, compare_gt_iff_gt]

theorem le_iff_place : x ≤ y ↔ ∃ a b, place x.toModel.unpack = some a ∧ place y.toModel.unpack = some b ∧ a ≤ b :=
  le_iff.trans unpacked_le_iff

theorem lt_iff_place : x < y ↔ ∃ a b, place x.toModel.unpack = some a ∧ place y.toModel.unpack = some b ∧ a < b := by
  have lt_iff : x < y ↔ x.toModel.unpack.lt y.toModel.unpack = true := decide_eq_true_iff
  rw [lt_iff, UnpackedFloat.lt, compare_place]
  cases place x.toModel.unpack <;> cases place y.toModel.unpack <;> simp [compare_lt_iff_lt]

theorem le_transitive (h : x ≤ y) (h' : y ≤ z) : x ≤ z := by
  have ⟨a, b, hx, hy, ab⟩ := le_iff_place.mp h
  have ⟨_, c, hy', hz, bc⟩ := le_iff_place.mp h'
  cases hy.symm.trans hy'
  exact le_iff_place.mpr ⟨a, c, hx, hz, ab.trans bc⟩

-- What compares with a double has a place of its own.
theorem comparable (h : x ≤ y) : y ≤ y := by
  have ⟨_, b, _, hy, _⟩ := le_iff_place.mp h
  exact le_iff_place.mpr ⟨b, b, hy, hy, le_rfl⟩

theorem lt_of_comparable (hx : x ≤ x) (hy : y ≤ y) (h : ¬x ≤ y) : y < x := by
  have ⟨a, _, hx, _⟩ := le_iff_place.mp hx
  have ⟨b, _, hy, _⟩ := le_iff_place.mp hy
  refine lt_iff_place.mpr ⟨b, a, hy, hx, not_le.mp fun ab => h ?_⟩
  exact le_iff_place.mpr ⟨a, b, hx, hy, ab⟩

theorem comparable_of_lt (h : x < y) : x ≤ x := by
  have ⟨a, _, hx, _⟩ := lt_iff_place.mp h
  exact le_iff_place.mpr ⟨a, a, hx, hx, le_rfl⟩

theorem lt_of_le_lt (h : x ≤ y) (h' : y < z) : x < z := by
  have ⟨a, b, hx, hy, ab⟩ := le_iff_place.mp h
  have ⟨_, c, hy', hz, bc⟩ := lt_iff_place.mp h'
  cases hy.symm.trans hy'
  exact lt_iff_place.mpr ⟨a, c, hx, hz, ab.trans_lt bc⟩

theorem compare_swap (u v : UnpackedFloat) : (u.compare v).map Ordering.swap = v.compare u := by
  cases u <;> cases v
  case infinity.infinity s s' => cases s <;> cases s' <;> rfl
  case finite.finite s _ _ _ s' _ _ _ =>
    cases s <;> cases s' <;> simp [UnpackedFloat.compare, Ordering.swap_then, ← Std.OrientedCmp.eq_swap]
  case infinity.zero s _ | infinity.finite s _ _ _ _ | zero.infinity s | finite.infinity s => cases s <;> rfl
  case zero.finite s _ _ _ | finite.zero s _ _ _ _ => cases s <;> rfl
  all_goals rfl

theorem not_le_of_lt (h : x < y) : ¬y ≤ x := by
  intro le
  have less : (x.toModel.unpack.compare y.toModel.unpack == some .lt) = true := of_decide_eq_true h
  have most : (y.toModel.unpack.compare x.toModel.unpack).any (·.isLE) = true := of_decide_eq_true le
  rw [← compare_swap, beq_iff_eq.mp less] at most
  cases most

theorem exists_zero (finite : p.isFinite) (nonneg : 0 ≤ p) (h : ¬0 < p) : ∃ s, p.toModel.unpack = .zero s := by
  have hz : (0 : Float).toModel.unpack = .zero .positive := rfl
  have hf : p.toModel.unpack.isFinite = true := finite
  have le := le_iff.mp nonneg
  have ge := le_iff.mp ((compare_zero finite).1.mp h)
  rw [hz] at le ge
  cases hp : p.toModel.unpack <;> rw [hp] at hf le ge
  case infinity | notANumber => cases hf
  case zero s                => exact ⟨s, rfl⟩
  case finite s _ _ _        => cases s <;> simp [UnpackedFloat.le, UnpackedFloat.compare] at le ge

theorem beq_zero {s : Sign} (hp : p.toModel.unpack = .zero s) : (p == 0) = true := by
  change (p.toModel.unpack.compare (.zero .positive) == some .eq) = true
  rw [hp]
  rfl

-- Zeros of either sign compare alike.
theorem zero_le {s s' : Sign} {v : UnpackedFloat} (h : (UnpackedFloat.zero s).le v = true) :
    (UnpackedFloat.zero s').le v = true := by
  cases v
  case notANumber => cases h
  case zero       => rfl
  case infinity sign | finite sign _ _ _ => cases sign <;> simp_all [UnpackedFloat.le, UnpackedFloat.compare]

theorem le_of_zero {s : Sign} (hp : p.toModel.unpack = .zero s) (h : 0 ≤ u) : p ≤ u := by
  rw [le_iff, hp]
  exact zero_le (s := .positive) (le_iff.mp h)

-- Adding a zero changes at most the sign of a zero.
theorem unpack_add_zero {s : Sign} (hp : p.toModel.unpack = .zero s) :
    (x + p).toModel.unpack = x.toModel.unpack ∨
      ∃ s' s'', x.toModel.unpack = .zero s' ∧ (x + p).toModel.unpack = .zero s'' := by
  have sum : (x + p).toModel = .pack (UnpackedFloat.add .binary64 x.toModel.unpack (.zero s)) := hp ▸ rfl
  have packed : Float.Model.pack x.toModel.unpack = x.toModel := congrArg Float.toModel (Float.ofBits_toBits x)
  have zero (s : Sign) : (Float.Model.pack (.zero s)).unpack = .zero s := by cases s <;> rfl
  have same (h : UnpackedFloat.add .binary64 x.toModel.unpack (.zero s) = x.toModel.unpack) :
      (x + p).toModel.unpack = x.toModel.unpack := by rw [sum, h, packed]
  cases hx : x.toModel.unpack
  case zero s' =>
    refine .inr ⟨s', if s' == s then s' else .positive, rfl, ?_⟩
    rw [sum, hx, UnpackedFloat.add, ← apply_ite UnpackedFloat.zero, zero]
  case notANumber | infinity | finite =>
    exact .inl <| (same (by simp [hx, UnpackedFloat.add])).trans hx

theorem add_le_of_zero {s : Sign} (hp : p.toModel.unpack = .zero s) (h : x ≤ u) : x + p ≤ u := by
  rw [le_iff] at h ⊢
  rcases unpack_add_zero (x := x) hp with same | ⟨s', s'', hx, sum⟩
  · rwa [same]
  · rw [sum]
    rw [hx] at h
    exact zero_le h

end Binary64

end BoltzmannSampling
