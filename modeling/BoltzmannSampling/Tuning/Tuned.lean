import BoltzmannSampling.Numeric.Scalar
import BoltzmannSampling.Specification.Check
import BoltzmannSampling.Specification.Document

/-!
Tuned systems: a checked system with a branching probability for every constructor. The thresholds of a type are the
running sums of its probabilities, the last one being exactly one, so that every draw below one meets a threshold
above it.
-/

namespace BoltzmannSampling

-- Regular tuning is tuning at the dominant singularity. Cumulative tuning serves bounded sizes: a rational system is
-- tuned below its pole, to an expected size.
inductive Mode where
  | regular
  | cumulative
deriving DecidableEq, Repr

namespace Mode

def text : Mode → String
  | regular => "regular"
  | cumulative => "cumulative"

def ofText? (s : String) : Option Mode := [regular, cumulative].find? (·.text == s)

def ofJson (found : Json) : Except Failure Mode :=
  match found.text?.bind ofText? with
  | some mode => .ok mode
  | none => .error (.request (.mode found))

end Mode

def runningSums {α : Type} [Scalar α] : α → List α → List α
  | _, [] => []
  | total, p :: rest => (total + p) :: runningSums (total + p) rest

-- The running sums of probabilities, with one in place of the last.
def thresholds {α : Type} [Scalar α] : List α → List α
  | [] => []
  | p :: rest => ((p :: runningSums p rest).dropLast) ++ [Scalar.ofNat 1]

-- A system tuned at a parameter, in some scalars. The probabilities stand in the order of the table: one list a type,
-- one number a constructor. Values may be missing.
structure Tuned (α : Type := Float) where
  system : Specification
  classification : Classification
  mode : Mode
  singularity : α
  parameter : α
  values : List (String × α)
  probabilities : List (List α)
  aligned : probabilities.map List.length = system.types.map (·.constructors.length)

namespace Tuned

section Scalars

variable {α : Type}

-- The tuned system of probabilities by type; every type needs as many as it has constructors.
def ofVectors (c : Checked) (mode : Mode) (singularity parameter : α) (values : List (String × α))
    (vectors : List (String × List α)) : Except Failure (Tuned α) :=
  let found := c.system.types.map fun t => (Assoc.get? vectors t.name).getD []
  if aligned : found.map List.length = c.system.types.map (·.constructors.length) then
    .ok ⟨c.system, c.classification, mode, singularity, parameter, values, found, aligned⟩
  else
    let bad := (c.system.types.zip found).find? fun (t, ps) => ps.length != t.constructors.length
    .error (.data (.vector ((bad.map (·.1.name)).getD "")))

variable (tuned : Tuned α)

def rows : List (TypeDef × List α) := tuned.system.types.zip tuned.probabilities

def constructorProbabilities : List (String × α) :=
  tuned.rows.flatMap fun (t, ps) => (t.constructors.map (·.name)).zip ps

def probability? (constructor : String) : Option α :=
  Assoc.get? tuned.constructorProbabilities constructor

def probabilitiesOf? (typeName : String) : Option (List α) :=
  (tuned.rows.find? (·.1.name == typeName)).map (·.2)

def thresholds? [Scalar α] (typeName : String) : Option (List α) :=
  (tuned.probabilitiesOf? typeName).map thresholds

def value? (typeName : String) : Option α := Assoc.get? tuned.values typeName

end Scalars

variable (tuned : Tuned)

-- How far the probabilities of each type are from one, summed from left to right.
def deviations : List Float := tuned.probabilities.map fun ps => (Scalar.sum ps - 1).abs

def normalizationError : Float :=
  match tuned.deviations with
  | [] => 0
  | first :: rest => rest.foldl (fun m x => if m < x then x else m) first

def valueJson (typeName : String) : Json := ((tuned.value? typeName).map Json.float).getD .null

def auxiliaryConstructorJson (c : Constructor Symbol) (p : Float) : Json :=
  .object [("name", .text c.name), ("probability", .float p)]

def constructorJson (c : Constructor Symbol) (p : Float) : Json :=
  .object (tuned.system.constructorFields c ++ [("probability", .float p)])

-- A type with the probabilities of its constructors; an auxiliary type names its kind and its element.
def typeJson (t : TypeDef) (ps : List Float) : Json :=
  let head := [("name", .text t.name), ("value", tuned.valueJson t.name)]
  match t.origin with
  | .auxiliary m e =>
    .object (head ++ [("kind", .text m.kind), ("element", .text (e.type?.getD "@")),
      ("constructors", .array (List.zipWith auxiliaryConstructorJson t.constructors ps))])
  | .declared .. =>
    .object (head ++ [("constructors", .array (List.zipWith tuned.constructorJson t.constructors ps))])

def toJson : Json :=
  .object [("type", .text tuned.classification.text), ("mode", .text tuned.mode.text),
    ("singularity", .float tuned.singularity), ("parameter", .float tuned.parameter),
    ("annotations", .object tuned.system.annotations),
    ("types", .array (tuned.rows.map fun (t, ps) => tuned.typeJson t ps))]

def literal : String :=
  "TunedSystem(type=" ++ tuned.classification.text ++ ", mode=" ++ tuned.mode.text ++ ", singularity=" ++
    Decimal.text tuned.singularity ++ ", parameter=" ++ Decimal.text tuned.parameter ++ ", types=" ++
    toString tuned.system.types.length ++ ")"

structure Row where
  typeName : String
  constructor : String
  weight : Float
  size : Nat
  probability : Float
  threshold : Float
  value : Option Float

def frame : List Row :=
  tuned.rows.flatMap fun (t, ps) =>
    (t.constructors.zip (ps.zip (thresholds ps))).map fun (c, p, h) =>
      ⟨t.name, c.name, c.weight, c.size, p, h, tuned.value? t.name⟩

end Tuned

end BoltzmannSampling
