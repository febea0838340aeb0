import BoltzmannSampling.Numeric.SpectralRadius
import BoltzmannSampling.Settings
import BoltzmannSampling.Tuning.Branching
import BoltzmannSampling.Tuning.ExpectedSize
import BoltzmannSampling.Tuning.Fold
import BoltzmannSampling.Tuning.Tuned

/-!
Tuning in doubles: the singularity of the equations of a system, for cumulative tuning of rational systems the
point of the expected size, and the branching probabilities there.
-/

namespace BoltzmannSampling

namespace BracketFault

def report (t : TuningSettings) : BracketFault Float → SearchFault
  | noSolutionAtZero => .noSolutionAtZero
  | finiteClass => .finiteClass
  | wide lo hi => .bracket lo hi t.precision t.maxiter
  | noPositivePoint => .noPositivePoint

end BracketFault

namespace ExpectedSizeFault

def report (goal : Number) (target : String) (maxiter : Int) : ExpectedSizeFault Float → Failure
  | noFixedPoint z => .search (.noFixedPoint z)
  | singular => .singular
  | goalTooSmall => .search (.goalTooSmall goal target)
  | tooManySteps => .tooLarge
  | notConverged => .search (.rootSearch maxiter)

end ExpectedSizeFault

namespace BranchingFault

def report : BranchingFault Float → SearchFault
  | value t v => .value t v
  | noTerm t => .noTerm t

end BranchingFault

namespace Equations

-- The least solution at `z`; a precision beyond the range of doubles is too large, unless there is no solution to
-- measure.
def solveNumber (e : Equations) (precision : Number) (maxiter : Int) (z : Float) :
    Except Failure (Option (List Float)) :=
  match precision.toFloat? with
  | some p => .ok (e.solve spectralRadius p maxiter.toNat z)
  | none => if (e.solve spectralRadius (1 / 0) maxiter.toNat z).isSome then .error .tooLarge else .ok none

def polish (e : Equations) (precision : Float) (b : Bracket Float) : Option (Point Float) :=
  (Fold.candidate e b).filter (b.accepts e precision.sqrt precision)

def singularityOf (e : Equations) (t : TuningSettings) : Except Failure (Point Float) := do
  match t.precision.toFloat? with
  | some p =>
    (e.singularity (e.solve spectralRadius p t.maxiter.toNat) (Fold.candidate e) p.sqrt p t.maxiter.toNat).mapError
      fun fault => .search (fault.report t)
  | none =>
    match ← e.solveNumber t.precision t.maxiter 0 with
    | some _ => .error .tooLarge
    | none => .error (.search .noSolutionAtZero)

def targetPoint (e : Equations) (s : Specification) (t : TuningSettings) (top : Point Float) :
    Except Failure (Point Float) := do
  let target := match t.target with
    | some name => if name.isEmpty then s.initial else name
    | none => s.initial
  let goal := t.expectedSize.getD (.float Defaults.expectedSize)
  match s.index? target, goal.toFloat?, t.precision.toFloat? with
  | none, _, _ => .error (.request (.target target))
  | some place, some g, some p =>
    (e.expectedSizePoint (e.solve spectralRadius p t.maxiter.toNat) p t.maxiter.toNat top place g).mapError
      (·.report goal target t.maxiter)
  | _, _, _ => .error .tooLarge

end Equations

namespace Tuned

-- The tuned system of a solution at a point, in any scalars.
def ofSolution {α : Type} [Scalar α] (report : BranchingFault α → Failure) (c : Checked) (e : Equations) (mode : Mode)
    (singularity : α) (p : Point α) : Except Failure (Tuned α) := do
  let shares ← (e.branching c.system.types p).mapError report
  ofVectors c mode singularity p.z (e.names.zip p.y) (c.system.names.zip shares)

def ofPoint (c : Checked) (e : Equations) (mode : Mode) (singularity : Float) (p : Point Float) :
    Except Failure Tuned :=
  ofSolution (fun fault => .search fault.report) c e mode singularity p

def solve (c : Checked) (mode : Mode) (t : TuningSettings) : Except Failure Tuned := do
  let e ← Equations.inDoubles c.system
  let top ← e.singularityOf t
  let point ←
    if mode = .cumulative ∧ c.classification = .rational then e.targetPoint c.system t top else .ok top
  ofPoint c e mode top.z point

-- The tuning problem of a checked system, for a solver elsewhere: the class, the settings and the equations.
def problem (c : Checked) (t : TuningSettings) : Except Failure Json := do
  let e ← Equations.inDoubles c.system
  return .object ([("type", .text c.classification.text), ("precision", .number t.precision),
    ("maxiter", .int t.maxiter)] ++ e.fields)

end Tuned

end BoltzmannSampling
