import Mathlib
import BoltzmannSampling.Proofs.Number.Halving
import BoltzmannSampling.Proofs.Tuning.EqualSettings

/-!
The tuning that suits a window of sizes. If a system says nothing about its tuning but the window, the expected size is
the middle of the window that is requested, and one at least. The annotated window should make no difference then. But
the settings of the annotations are made first, and they are checked: the middle of the annotated window has to be a
double above zero. So no request is served if the annotated window is that of the size zero alone.
-/

namespace BoltzmannSampling

theorem midpoint_eq_ok {a b : Int} {m : Float} :
    midpoint a b = .ok m ↔ ∃ x, Binary64.ofInt? (a + b) = some x ∧ x / 2 = m := by
  rw [midpoint]
  cases Binary64.ofInt? (a + b) <;> simp

def atLeastOne (m : Float) : Float := if 1 > m then 1 else m

-- Nothing is annotated about the tuning, but for the window.
structure Specification.Untold (s : Specification) : Prop where
  precision    : Assoc.get? s.annotations "precision" = none
  maxiter      : Assoc.get? s.annotations "maxiter" = none
  expectedSize : Assoc.get? s.annotations "expectedSize" = none

namespace SamplerSettings

variable {s : Specification} {a t : SamplerSettings} {r : TuningSettings} {m : Float}

structure Valid (t : SamplerSettings) : Prop where
  samples    : 0 ≤ t.samples
  lowerBound : 0 ≤ t.lowerBound
  bounds     : t.lowerBound ≤ t.upperBound

theorem valid_of_fault? (h : t.fault? = none) : t.Valid := by
  rw [fault?] at h
  split_ifs at h
  exact ⟨by omega, by omega, by omega⟩

section Middle

variable {low high : Int}

-- The middle of a window is half a natural number.
theorem exists_of_midpoint (hl : 0 ≤ low) (hh : low ≤ high) (h : midpoint low high = .ok m) :
    ∃ (i : Nat) (x : Float), low + high = i ∧ Binary64.ofInt? i = some x ∧ x / 2 = m := by
  obtain ⟨i, hi⟩ := Int.eq_ofNat_of_zero_le (show 0 ≤ low + high by omega)
  obtain ⟨x, hx, half⟩ := midpoint_eq_ok.mp h
  exact ⟨i, x, hi, hi ▸ hx, half⟩

theorem positive_middle (hl : 0 ≤ low) (hh : low ≤ high) (h : midpoint low high = .ok m) :
    Number.Positive (.float m) ↔ 0 < high := by
  obtain ⟨i, x, sum, hx, rfl⟩ := exists_of_midpoint hl hh h
  rw [Binary64.positive_half hx]
  omega

theorem positive_atLeastOne (hl : 0 ≤ low) (hh : low ≤ high) (h : midpoint low high = .ok m) :
    Number.Positive (.float (atLeastOne m)) := by
  obtain ⟨i, x, sum, hx, rfl⟩ := exists_of_midpoint hl hh h
  rw [atLeastOne]
  split_ifs with below
  case pos => rfl
  case neg =>
    rw [Binary64.one_gt_half hx] at below
    exact (Binary64.positive_half hx).mpr (by omega)

-- The middle is exact as long as the sum of the bounds has no more than 53 bits.
theorem atLeastOne_bounds (hl : 0 ≤ low) (hh : low ≤ high) (h : midpoint low high = .ok m)
    (short : low + high < 2 ^ 53) :
    Number.le (.int (max low 1)) (.float (atLeastOne m)) = true ∧
      Number.le (.float (atLeastOne m)) (.int (max high 1)) = true := by
  obtain ⟨i, x, sum, hx, rfl⟩ := exists_of_midpoint hl hh h
  have exact (k : Int) := Binary64.compareIntFloat_half hx (by omega) k
  rw [atLeastOne]
  split_ifs with below
  case pos =>
    rw [Binary64.one_gt_half hx] at below
    have low : max low 1 = 1 := by omega
    have high : 1 ≤ max high 1 := by omega
    rw [low, Number.int_le_float (Binary64.compareIntFloat_one 1),
      Number.float_le_int (Binary64.compareIntFloat_one _)]
    exact ⟨le_rfl, high⟩
  case neg =>
    rw [Binary64.one_gt_half hx] at below
    rw [Number.int_le_float (exact _), Number.float_le_int (exact _)]
    omega

end Middle

-- The settings that are left to set the expected size and the target.
def plain (size : Float) (target : String) : TuningSettings :=
  ⟨.float Defaults.precision, Defaults.maxiter, some (.float size), some target⟩

theorem plain_fault? (size : Float) (target : String) : (plain size target).fault? =
    if Number.lt (.int 0) (.float size) then none else some .expectedSize := by
  have precision : Number.lt (.int 0) (.float Defaults.precision) = true := rfl
  have maxiter : ¬Defaults.maxiter < 1 := by decide
  simp [TuningSettings.fault?, plain, precision, maxiter]

theorem plain_make {size : Float} (h : Number.Positive (.float size)) (target : String) :
    TuningSettings.make (plain size target) = .ok (plain size target) := by
  rw [TuningSettings.make, (plain_fault? size target).trans (if_pos h)]

theorem bounds_ofSystem (h : ofSystem s = .ok a) : a.Valid ∧ ∃ low high,
    Annotations.readInt s.annotations "lowerBound" = .ok low ∧ low.getD Defaults.lowerBound = a.lowerBound ∧
      Annotations.readInt s.annotations "upperBound" = .ok high ∧ high.getD Defaults.upperBound = a.upperBound := by
  simp only [ofSystem, Checks.bind_eq_ok] at h
  obtain ⟨_, -, low, hl, high, hh, _, -, h⟩ := h
  split at h
  case h_1        => cases h
  case h_2 passed =>
    cases h
    exact ⟨valid_of_fault? passed, low, high, hl, rfl, hh, rfl⟩

-- The settings of the annotations are those for the middle of the annotated window, which is checked.
theorem annotated_eq (untold : s.Untold) (ha : ofSystem s = .ok a) : ∃ target, TuningSettings.ofSystem s =
    (midpoint a.lowerBound a.upperBound).bind fun m =>
      if Number.lt (.int 0) (.float m) then .ok (plain m target) else .error (.settings (.setting .expectedSize)) := by
  obtain ⟨-, low, high, hl, lower, hh, upper⟩ := bounds_ofSystem ha
  have precision : Annotations.readFloat s.annotations "precision" = .ok none := by
    rw [Annotations.readFloat, Annotations.value?, untold.precision]
  have maxiter : Annotations.readInt s.annotations "maxiter" = .ok none := by
    rw [Annotations.readInt, Annotations.value?, untold.maxiter]
  have expectedSize : Annotations.readFloat s.annotations "expectedSize" = .ok none := by
    rw [Annotations.readFloat, Annotations.value?, untold.expectedSize]
  refine ⟨(Annotations.readText s.annotations "generate").getD s.initial, ?_⟩
  simp only [TuningSettings.ofSystem, hl, hh, precision, maxiter, expectedSize, lower, upper, Option.getD_none, bind,
    Except.bind]
  cases midpoint a.lowerBound a.upperBound
  case error => rfl
  case ok m  =>
    have fault := plain_fault? m ((Annotations.readText s.annotations "generate").getD s.initial)
    rw [plain] at fault
    simp only [fault]
    split_ifs <;> rfl

-- The window of the annotations comes first, and fails if it is that of the size zero alone.
theorem tuning_eq (untold : s.Untold) (ha : ofSystem s = .ok a) (ht : t.fault? = none) : t.tuning s =
    (midpoint a.lowerBound a.upperBound).bind fun m =>
      if Number.lt (.int 0) (.float m) then
        (midpoint t.lowerBound t.upperBound).map fun m => plain (atLeastOne m) (t.start s)
      else .error (.settings (.setting .expectedSize)) := by
  have valid := valid_of_fault? ht
  obtain ⟨target, settings⟩ := annotated_eq untold ha
  simp only [tuning, settings, untold.expectedSize, Option.bind_none, bind, Except.bind]
  cases midpoint a.lowerBound a.upperBound
  case error => rfl
  case ok m  =>
    simp only
    split_ifs
    case neg => rfl
    case pos =>
      cases hm : midpoint t.lowerBound t.upperBound
      case error => rfl
      case ok m  => exact plain_make (positive_atLeastOne valid.lowerBound valid.bounds hm) (t.start s)

-- A request is served unless a window, its own or the annotated one, has no middle among doubles, or the annotated one
-- is that of the size zero alone.
theorem tuning_eq_ok (untold : s.Untold) (ha : ofSystem s = .ok a) (ht : t.fault? = none) :
    t.tuning s = .ok r ↔ (0 < a.upperBound ∧ ∃ m, midpoint a.lowerBound a.upperBound = .ok m) ∧
      ∃ m, midpoint t.lowerBound t.upperBound = .ok m ∧ r = plain (atLeastOne m) (t.start s) := by
  have valid := (bounds_ofSystem ha).1
  rw [tuning_eq untold ha ht]
  cases hm : midpoint a.lowerBound a.upperBound
  case error => simp [Except.bind]
  case ok m  =>
    have positive := positive_middle valid.lowerBound valid.bounds hm
    rw [Number.Positive] at positive
    simp only [Except.bind, positive]
    split_ifs with wide
    case neg => simp [wide]
    case pos => cases midpoint t.lowerBound t.upperBound <;> simp [Except.map, wide, eq_comm]

theorem tuning_of_zero (untold : s.Untold) (ha : ofSystem s = .ok a) (ht : t.fault? = none) (zero : a.upperBound = 0) :
    t.tuning s = .error (.settings (.setting .expectedSize)) := by
  have valid := (bounds_ofSystem ha).1
  have lower := valid.lowerBound
  have bounds := valid.bounds
  obtain ⟨m, middle⟩ : ∃ m, midpoint a.lowerBound a.upperBound = .ok m := by
    have found : Binary64.ofInt? (0 : Nat) = some (Float.ofBits 0) := rfl
    rw [show a.lowerBound = 0 by omega, zero]
    exact ⟨_, midpoint_eq_ok.mpr ⟨_, found, rfl⟩⟩
  have none : ¬Number.lt (.int 0) (.float m) = true := fun positive =>
    ((positive_middle lower bounds middle).mp positive).ne' zero
  rw [tuning_eq untold ha ht, middle, Except.bind, if_neg none]

example : SamplerSettings.default.tuning ⟨[], "W", [("lowerBound", .nat 0), ("upperBound", .nat 0)]⟩ =
    .error (.settings (.setting .expectedSize)) :=
  tuning_of_zero (a := ⟨1, 0, 0, some "W", "Sampler", none⟩) ⟨rfl, rfl, rfl⟩ rfl rfl rfl

-- A tuning for a request aims at the window of the request, whichever is annotated.
theorem tuning_suits (untold : s.Untold) (ha : ofSystem s = .ok a) (ht : t.fault? = none) (h : t.tuning s = .ok r) :
    r.target = some (t.start s) ∧ ∃ size, r.expectedSize = some size ∧ (t.lowerBound + t.upperBound < 2 ^ 53 →
      Number.le (.int (max t.lowerBound 1)) size = true ∧ Number.le size (.int (max t.upperBound 1)) = true) := by
  have valid := valid_of_fault? ht
  obtain ⟨-, m, hm, rfl⟩ := (tuning_eq_ok untold ha ht).mp h
  exact ⟨rfl, _, rfl, atLeastOne_bounds valid.lowerBound valid.bounds hm⟩

end SamplerSettings

end BoltzmannSampling
