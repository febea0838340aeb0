import Mathlib
import BoltzmannSampling.Proofs.Checks
import BoltzmannSampling.Proofs.Number.Equality
import BoltzmannSampling.Tuning.Source

/-!
Settings of the tuner that count as equal. Of those that pass their check it is an equivalence, and it is enough for a
tuning: what succeeds with some settings succeeds with equal ones, in the same system. A failure may differ, as it
shows its numbers as they are written.
-/

namespace BoltzmannSampling

namespace TuningSettings

variable {a b c : TuningSettings}

structure Valid (t : TuningSettings) : Prop where
  precision    : t.precision.Positive
  maxiter      : 1 ≤ t.maxiter
  expectedSize : ∀ e ∈ t.expectedSize, e.Positive

theorem valid_of_fault? (h : a.fault? = none) : a.Valid := by
  rw [fault?] at h
  split at h
  case isTrue     => cases h
  case isFalse hp =>
    split at h
    case isTrue     => cases h
    case isFalse hm =>
      refine ⟨by simpa [Number.Positive] using hp, by omega, fun e he => ?_⟩
      rw [Option.mem_def.mp he] at h
      simpa [Number.Positive] using h

-- Equal expected sizes, or none of either.
abbrev SameSize : Option Number → Option Number → Prop := Option.Rel fun x y => x.same y = true

namespace SameSize

variable {x y z : Option Number}

theorem refl (hx : ∀ e ∈ x, e.Positive) : SameSize x x := by
  cases x
  case none => exact .none
  case some => exact .some (Number.same_refl (hx _ rfl))

theorem symm (hx : ∀ e ∈ x, e.Positive) (h : SameSize x y) : SameSize y x := by
  cases h
  case none   => exact .none
  case some h => exact .some (Number.same_symm (hx _ rfl) h)

theorem trans (hx : ∀ e ∈ x, e.Positive) (hy : ∀ e ∈ y, e.Positive) (h : SameSize x y) (h' : SameSize y z) :
    SameSize x z := by
  cases h <;> cases h'
  case none.none        => exact .none
  case some.some h _ h' => exact .some (Number.same_trans (hx _ rfl) (hy _ rfl) h h')

theorem toFloat?_eq {default : Number} (hx : ∀ e ∈ x, e.Positive) (hy : ∀ e ∈ y, e.Positive) (h : SameSize x y) :
    (x.getD default).toFloat? = (y.getD default).toFloat? := by
  cases h
  case none   => rfl
  case some h => exact Number.toFloat?_eq (hx _ rfl) (hy _ rfl) h

end SameSize

theorem same_iff : a.same b = true ↔ a.precision.same b.precision = true ∧ a.maxiter = b.maxiter ∧
    a.target = b.target ∧ SameSize a.expectedSize b.expectedSize := by
  cases a with | mk _ _ size =>
  cases b with | mk _ _ size' =>
  cases size <;> cases size' <;> simp [same, and_assoc]

theorem same_refl (ha : a.Valid) : a.same a = true :=
  same_iff.mpr ⟨Number.same_refl ha.precision, rfl, rfl, .refl ha.expectedSize⟩

theorem same_symm (ha : a.Valid) (h : a.same b = true) : b.same a = true := by
  have ⟨precision, maxiter, target, size⟩ := same_iff.mp h
  exact same_iff.mpr ⟨Number.same_symm ha.precision precision, maxiter.symm, target.symm, size.symm ha.expectedSize⟩

theorem same_trans (ha : a.Valid) (hb : b.Valid) (hab : a.same b = true) (hbc : b.same c = true) : a.same c = true := by
  have ⟨precision, maxiter, target, size⟩ := same_iff.mp hab
  have ⟨precision', maxiter', target', size'⟩ := same_iff.mp hbc
  exact same_iff.mpr ⟨Number.same_trans ha.precision hb.precision precision precision', maxiter.trans maxiter',
    target.trans target', size.trans ha.expectedSize hb.expectedSize size'⟩

theorem same_equivalence : Equivalence fun a b : { t : TuningSettings // t.Valid } => a.val.same b.val = true where
  refl  := fun a => same_refl a.property
  symm  := fun {a _} h => same_symm a.property h
  trans := fun {a b _} h h' => same_trans a.property b.property h h'

-- Settings that say the same to a solver in doubles.
structure Alike (a b : TuningSettings) : Prop where
  precision    : a.precision.toFloat? = b.precision.toFloat?
  maxiter      : a.maxiter = b.maxiter
  target       : a.target = b.target
  expectedSize : (a.expectedSize.getD (.float Defaults.expectedSize)).toFloat? =
    (b.expectedSize.getD (.float Defaults.expectedSize)).toFloat?

theorem alike (ha : a.Valid) (hb : b.Valid) (h : a.same b = true) : a.Alike b := by
  have ⟨precision, maxiter, target, size⟩ := same_iff.mp h
  exact ⟨Number.toFloat?_eq ha.precision hb.precision precision, maxiter, target,
    size.toFloat?_eq ha.expectedSize hb.expectedSize⟩

theorem valid_ofSystem {s : Specification} (h : ofSystem s = .ok a) : a.Valid := by
  simp only [ofSystem, Checks.bind_eq_ok] at h
  obtain ⟨_, -, _, -, _, -, _, -, _, -, _, -, h⟩ := h
  split at h
  case h_1        => cases h
  case h_2 passed =>
    cases h
    exact valid_of_fault? passed

end TuningSettings

theorem Checks.mapError_eq_ok {ε ε' α : Type} {f : ε → ε'} {x : Except ε α} {a : α} : x.mapError f = .ok a ↔ x = .ok a := by
  cases x <;> simp [Except.mapError]

namespace Equations

variable {e : Equations} {a b : TuningSettings} {p top : Point Float}

theorem singularityOf_alike (h : a.Alike b) (ha : e.singularityOf a = .ok p) : e.singularityOf b = .ok p := by
  rw [singularityOf, h.precision, h.maxiter] at ha
  rw [singularityOf]
  split at ha
  case h_1 => exact Checks.mapError_eq_ok.mpr (Checks.mapError_eq_ok.mp ha)
  case h_2 =>
    have ⟨_, _, hf⟩ := Checks.bind_eq_ok.mp ha
    split at hf <;> cases hf

theorem targetPoint_alike {s : Specification} (h : a.Alike b) (ha : e.targetPoint s a top = .ok p) :
    e.targetPoint s b top = .ok p := by
  simp only [targetPoint, h.precision, h.maxiter, h.target, h.expectedSize] at ha
  simp only [targetPoint]
  split at ha
  case h_2 => exact Checks.mapError_eq_ok.mpr (Checks.mapError_eq_ok.mp ha)
  all_goals cases ha

end Equations

-- Whether a tuning succeeds, and in what, does not depend on how its settings are written.
def Oracle.Respects (oracle : Oracle) : Prop :=
  ∀ ⦃c mode a b tuned⦄, a.Valid → b.Valid → a.same b = true → oracle c mode a = .ok tuned → oracle c mode b = .ok tuned

theorem Tuned.solve_respects : Oracle.Respects solve := by
  intro c mode a b tuned va vb same ha
  have alike := TuningSettings.alike va vb same
  have ⟨e, he, ha⟩ := Checks.bind_eq_ok.mp ha
  have ⟨top, ht, ha⟩ := Checks.bind_eq_ok.mp ha
  refine Checks.bind_eq_ok.mpr ⟨e, he, Checks.bind_eq_ok.mpr ⟨top, Equations.singularityOf_alike alike ht, ?_⟩⟩
  by_cases hm : mode = .cumulative ∧ c.classification = .rational
  case neg =>
    rw [if_neg hm] at ha ⊢
    exact ha
  case pos =>
    rw [if_pos hm] at ha ⊢
    have ⟨point, hp, done⟩ := Checks.bind_eq_ok.mp ha
    exact Checks.bind_eq_ok.mpr ⟨point, Equations.targetPoint_alike alike hp, done⟩

theorem TuningSource.oracle_respects (files : Files) (source : TuningSource) : (source.oracle files).Respects := by
  cases source
  case solver => exact Tuned.solve_respects
  case file   => exact fun _ _ _ _ _ _ _ _ h => h

end BoltzmannSampling
