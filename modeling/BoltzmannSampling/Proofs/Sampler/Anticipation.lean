import Mathlib
import BoltzmannSampling.Proofs.Sampler.Accounts
import BoltzmannSampling.Proofs.Sampler.Plans

/-!
Anticipated rejection. A limit changes no step but one: that with which the atoms exceed it, which ends the attempt.
Atoms are never taken back. So an attempt with a limit has the same structure after the same numbers as the one without
a limit if it is allowed, and gives up no later if it is not.
-/

namespace BoltzmannSampling

namespace Progress

-- What becomes of the end of a step by a limit on the number of atoms.
inductive Anticipates {σ : Type} (upper : Nat) : Progress σ → Progress σ → Prop
  | same (P : Progress σ) : Anticipates upper P P
  | exceeds {a : Attempt σ} (h : upper < a.size) : Anticipates upper (.exceeded a.source) (.running a)

-- An attempt that goes on from another, or ends, has no fewer atoms and has taken no fewer numbers.
def After (a : Attempt Nat) : Progress Nat → Prop
  | .running b | .done _ b => a.source ≤ b.source ∧ a.size ≤ b.size
  | .exceeded _ | .stuck _ => True

variable {a b : Attempt Nat} {P : Progress Nat}

theorem After.trans (h : After a (.running b)) (h' : After b P) : After a P := by
  cases P
  case running | done   => exact ⟨h.1.trans h'.1, h.2.trans h'.2⟩
  case exceeded | stuck => trivial

end Progress

namespace Attempt

open Progress

section Limit

variable {σ : Type} {D : Decider σ} {s : Sampler} {order : DrawOrder} {upper : Nat}

theorem anticipates_over (a : Attempt σ) :
    Anticipates upper (if isOver (some upper) a.size then .exceeded a.source else .running a) (.running a) := by
  by_cases h : upper < a.size
  case pos =>
    rw [isOver, decide_eq_true h, if_pos rfl]
    exact .exceeds h
  case neg =>
    rw [isOver, decide_eq_false h, if_neg Bool.false_ne_true]
    exact .same _

theorem start_anticipates (a : Attempt σ) (T : String) (p : Plan) :
    Anticipates upper (start (some upper) a T p) (start none a T p) :=
  anticipates_over ⟨a.source, a.size + p.weight, a.nodes + 1, frame a.nodes T p :: a.stack⟩

theorem enter_anticipates (a : Attempt σ) (T : String) :
    Anticipates upper (enter D s (some upper) a T) (enter D s none a T) := by
  rw [enter, enter]
  cases s.dispatch? T
  case none   => exact .same _
  case some d =>
    simp only
    cases D.plan d a.source
    case mk plan source =>
    cases plan
    case none   => exact .same _
    case some p => exact start_anticipates _ T p

theorem drawRun_anticipates (a : Attempt σ) (f : Frame) (rest : List Frame) (r : Run) :
    Anticipates upper (drawRun D (some upper) a f rest r) (drawRun D none a f rest r) := by
  simp only [drawRun]
  split
  case h_1          => exact .same _
  case h_2 source _ =>
    exact anticipates_over ⟨source, a.size + r.element.atomSize, a.nodes,
      { f with run := some { r with count := r.count + 1 } } :: rest⟩
  case h_3          => exact .same _

theorem step_anticipates (a : Attempt σ) :
    Anticipates upper (step D s order (some upper) a) (step D s order none a) := by
  simp only [step]
  split
  case h_1          => exact .same _
  case h_2 f rest _ =>
    cases f.action order
    case draw r            => exact drawRun_anticipates a f rest r
    case call | «continue» => exact enter_anticipates ..
    case look | finish     => exact .same _

end Limit

section Stream

variable {us : Nat → Float} {s : Sampler} {order : DrawOrder} {limit : Option Nat}

theorem plan_after {d : Dispatch} {p : Option Plan} {source source' : Nat}
    (h : (Decider.ofStream us).plan d source = (p, source')) : source ≤ source' := by
  simp only [Decider.plan, Decider.ofStream, Decider.ofNumbers] at h
  split at h <;> cases h
  · exact source.le_succ
  · exact le_rfl

theorem enter_after (us : Nat → Float) (a : Attempt Nat) (T : String) : After a (enter (.ofStream us) s limit a T) := by
  rw [enter]
  split
  case h_1 => trivial
  case h_2 =>
    split
    case h_1 p source hp =>
      rw [start]
      split
      · trivial
      · exact ⟨plan_after hp, Nat.le_add_right ..⟩
    case h_2 => trivial

theorem drawRun_after (a : Attempt Nat) (f : Frame) (rest : List Frame) (r : Run) :
    After a (drawRun (.ofStream us) limit a f rest r) := by
  simp only [drawRun, Decider.ofStream, Decider.ofNumbers]
  cases decide (us a.source < r.p)
  case false => exact ⟨a.source.le_succ, le_rfl⟩
  case true  =>
    simp only
    split
    · trivial
    · exact ⟨a.source.le_succ, Nat.le_add_right ..⟩

theorem step_after (a : Attempt Nat) : After a (step (.ofStream us) s order limit a) := by
  rw [step]
  split
  case h_1          => trivial
  case h_2 f rest _ =>
    split
    case h_1       => exact drawRun_after a f rest _
    case h_2       => exact ⟨le_rfl, le_rfl⟩
    case h_3 | h_4 => exact enter_after us ⟨a.source, a.size, a.nodes, _ :: rest⟩ _
    case h_5       => cases rest <;> exact ⟨le_rfl, le_rfl⟩

theorem steps_after (fuel : Nat) (a : Attempt Nat) : After a (steps (.ofStream us) s order limit fuel a) := by
  induction fuel generalizing a
  case zero         => exact ⟨le_rfl, le_rfl⟩
  case succ fuel hi =>
    rw [steps]
    have first : After a (step (.ofStream us) s order limit a) := step_after a
    split
    case h_1 b hb => exact (hb ▸ first).trans (hi b)
    case h_2      => exact first

-- With a limit the steps end as they do without one, or they stop where the atoms exceed it, and nothing that comes
-- afterwards without a limit has fewer atoms or takes fewer numbers.
def Agrees (upper : Nat) (bounded free : Progress Nat) : Prop :=
  bounded = free ∨ ∃ b : Attempt Nat, upper < b.size ∧ bounded = .exceeded b.source ∧ After b free

theorem steps_agree (upper fuel : Nat) (a : Attempt Nat) :
    Agrees upper (steps (.ofStream us) s order (some upper) fuel a) (steps (.ofStream us) s order none fuel a) := by
  induction fuel generalizing a
  case zero         => exact .inl rfl
  case succ fuel hi =>
    have first : Anticipates upper (step (.ofStream us) s order (some upper) a) (step (.ofStream us) s order none a) :=
      step_anticipates a
    rw [steps, steps]
    generalize step (.ofStream us) s order (some upper) a = bounded at first
    generalize step (.ofStream us) s order none a = free at first
    cases first
    case exceeds b more => exact .inr ⟨b, more, rfl, steps_after fuel b⟩
    case same           =>
      cases bounded
      case running b               => exact hi b
      case done | exceeded | stuck => exact .inl rfl

theorem draw_agrees (upper fuel i : Nat) (T : String) :
    Agrees upper (draw (.ofStream us) s order (some upper) fuel i T) (draw (.ofStream us) s order none fuel i T) := by
  have first : Anticipates upper (enter (.ofStream us) s (some upper) ⟨i, 0, 0, []⟩ T)
      (enter (.ofStream us) s none ⟨i, 0, 0, []⟩ T) := enter_anticipates ..
  rw [draw, draw]
  generalize enter (.ofStream us) s (some upper) ⟨i, 0, 0, []⟩ T = bounded at first
  generalize enter (.ofStream us) s none ⟨i, 0, 0, []⟩ T = free at first
  cases first
  case exceeds b more => exact .inr ⟨b, more, rfl, steps_after fuel b⟩
  case same           =>
    cases bounded
    case running b               => exact steps_agree upper fuel b
    case done | exceeded | stuck => exact .inl rfl

end Stream

-- An attempt with a limit on the number of atoms has a structure exactly if the one without a limit has it, after the
-- same numbers, and the limit allows it. If it does not, the attempt gives up no later.
theorem draw_limited (s : Sampler) (order : DrawOrder) (us : Nat → Float) (upper fuel i : Nat) (T : String)
    (found : Structure) (a : Attempt Nat) :
    (draw (.ofStream us) s order (some upper) fuel i T = .done found a ↔
      draw (.ofStream us) s order none fuel i T = .done found a ∧ found.size ≤ upper) ∧
    (draw (.ofStream us) s order none fuel i T = .done found a → upper < found.size →
      ∃ k ≤ a.source, draw (.ofStream us) s order (some upper) fuel i T = .exceeded k) := by
  have agrees : Agrees upper (draw (.ofStream us) s order (some upper) fuel i T)
      (draw (.ofStream us) s order none fuel i T) := draw_agrees upper fuel i T
  have size {limit : Option Nat} (h : draw (.ofStream us) s order limit fuel i T = .done found a) :
      found.size = a.size ∧ isOver limit found.size = false := by
    have ⟨_, size, within⟩ := Accounted.draw_done h
    exact ⟨size, size ▸ within⟩
  refine ⟨⟨fun bounded => ?complete, fun ⟨free, fits⟩ => ?fits⟩, fun free more => ?exceeds⟩
  case complete =>
    have fits : found.size ≤ upper := by simpa [isOver] using (size bounded).2
    rcases agrees with same | ⟨b, _, exceeded, _⟩
    · exact ⟨same ▸ bounded, fits⟩
    · cases exceeded.symm.trans bounded
  case fits =>
    rcases agrees with same | ⟨b, more, _, after⟩
    · exact same.trans free
    · rw [free] at after
      have := (size free).1
      exact absurd after.2 (by omega)
  case exceeds =>
    rcases agrees with same | ⟨b, _, exceeded, after⟩
    · have within := (size (same.trans free)).2
      simp only [isOver, decide_eq_false_iff_not] at within
      exact absurd more within
    · rw [free] at after
      exact ⟨b.source, after.1, exceeded⟩

-- A word of a letter and a mark takes four numbers, and two atoms are counted after two of them.
theorem words_limited :
    let us (i : Nat) : Float := if i < 2 then 0 else 0.9
    ∃ found a, draw (.ofStream us) (.ofTuned .words) .inPlace none 20 0 "Word" = .done found a ∧ found.size = 2 ∧
      a.source = 4 ∧ draw (.ofStream us) (.ofTuned .words) .inPlace (some 2) 20 0 "Word" = .done found a ∧
      ∃ k ≤ 4, draw (.ofStream us) (.ofTuned .words) .inPlace (some 1) 20 0 "Word" = .exceeded k := by
  intro us
  have run : (match draw (.ofStream us) (.ofTuned .words) .inPlace none 20 0 "Word" with
    | .done found a => found.size == 2 && a.source == 4
    | _             => false) = true := by decide +kernel
  cases free : draw (.ofStream us) (.ofTuned .words) .inPlace none 20 0 "Word" <;> rw [free] at run
  case done found a              =>
    obtain ⟨size, numbers⟩ : found.size = 2 ∧ a.source = 4 := by simpa using run
    have fits := (draw_limited (.ofTuned .words) .inPlace us 2 20 0 "Word" found a).1
    have exceeds := (draw_limited (.ofTuned .words) .inPlace us 1 20 0 "Word" found a).2
    exact ⟨found, a, rfl, size, numbers, fits.mpr ⟨free, size.le⟩, numbers ▸ exceeds free (by omega)⟩
  case running | exceeded | stuck => cases run

end Attempt

end BoltzmannSampling
