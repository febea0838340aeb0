import BoltzmannSampling.Numeric.Pairwise
import BoltzmannSampling.Tuning.Data

/-!
Tuned systems from tuning data. The data must name exactly the constructors of the system, each once; the
singularity and the parameter must be positive; the probabilities of every type must be finite, not negative, and
sum to one within a tolerance; values must be positive and belong to types. A rational system has a different point
in each mode, so data of one mode do not serve the other.
-/

namespace BoltzmannSampling

def sortedNames (names : List String) : List String :=
  (names.mergeSort fun a b => decide (a ≤ b)).eraseDups

namespace TuningData

-- How far a sum of probabilities may be from one.
def tolerance : Float := 1e-6

-- The names that are missing, unknown, and repeated, if there are any.
def mismatch? (expected given duplicated : List String) : Option TuningFault :=
  let missing := sortedNames (expected.filter (!given.contains ·))
  let extra := sortedNames (given.filter (!expected.contains ·))
  if missing.isEmpty && extra.isEmpty && duplicated.isEmpty then none
  else some (.mismatch missing extra (sortedNames duplicated))

def matching (data : TuningData) (s : Specification) : Except Failure (List (String × Float)) :=
  match data.probabilities.texts? with
  | none => .error .wrongKind
  | some given =>
    match mismatch? s.constructorNames (given.map (·.1)) (data.duplicated.filterMap Json.text?) with
    | some fault => .error (.tuning fault)
    | none => .ok given

-- A rational system takes data of the requested mode, or of none.
def checkMode (data : TuningData) (c : Checked) (mode : Mode) : Except Failure Unit :=
  match data.mode with
  | some recorded =>
    if recorded ≠ mode ∧ c.classification = .rational then .error (.data (.modeClash recorded.text mode.text)) else .ok ()
  | none => .ok ()

def isPositive (x : Float) : Bool := x.isFinite && 0 < x

def positiveSingularity (data : TuningData) : Except Failure Float :=
  match data.singularity with
  | some x => if isPositive x then .ok x else .error (.data (.singularity (some x)))
  | none => .error (.data (.singularity none))

-- The parameter, which must be positive and is the singularity if there is none.
def positiveParameter (data : TuningData) (singularity : Float) : Except Failure Float :=
  let x := data.parameter.getD singularity
  if isPositive x then .ok x else .error (.data (.parameter x))

def checkProbability (entry : String × Float) : Except Failure Unit :=
  let (name, p) := entry
  if p.isFinite && 0 ≤ p then .ok () else .error (.data (.probability name p))

-- The probabilities of the constructors of a type, which sum to one.
def vectorOf (given : List (String × Float)) (t : TypeDef) : Except Failure (String × List Float) := do
  let ps := t.constructors.map fun c => (c.name, (Assoc.get? given c.name).getD 0)
  ps.forM checkProbability
  let vector := ps.map (·.2)
  let total := Scalar.pairwiseSum vector
  if (total - 1).abs > tolerance then .error (.data (.total t.name total)) else .ok (t.name, vector)

-- The values, which belong to types of the system and are positive.
def positiveValues (data : TuningData) (s : Specification) : Except Failure (List (String × Float)) :=
  match data.values.texts? with
  | none => .error .wrongKind
  | some given => do
    let unknown := (given.map (·.1)).filter (!s.names.contains ·)
    if !unknown.isEmpty then .error (.data (.unknownTypes (sortedNames unknown)))
    given.forM fun (name, v) => if isPositive v then .ok () else .error (.data (.value name v))
    .ok given

def tune (data : TuningData) (c : Checked) (mode : Mode) : Except Failure Tuned := do
  let given ← data.matching c.system
  data.checkMode c mode
  let singularity ← data.positiveSingularity
  let parameter ← data.positiveParameter singularity
  let vectors ← c.system.types.mapM (vectorOf given)
  let values ← data.positiveValues c.system
  Tuned.ofVectors c mode singularity parameter values vectors

end TuningData

namespace Tuned

def load (files : Files) (c : Checked) (mode : Mode) (path : String) (asked : Option String) :
    Except Failure Tuned := do
  (← TuningData.read files path asked).tune c mode

end Tuned

end BoltzmannSampling
