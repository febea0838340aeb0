import BoltzmannSampling.Specification.Basic

/-!
Settings of the tuner and the sampler, and their annotations. An annotation may be a number or its text; a setting
that is not annotated takes its default. Every setting is checked when it is made.
-/

namespace BoltzmannSampling

namespace Annotations

-- The value of an annotation; null counts as absent.
def value? (annotations : List (String × Json)) (key : String) : Option Json :=
  match Assoc.get? annotations key with
  | some .null => none
  | found => found

-- The integer that a value stands for: itself, a double without fraction, or a text.
def int? : Json → Option Int
  | .number (.int i) => some i
  | .number (.float x) => (Binary64.ofFloat? x).bind Binary64.toInt?
  | .text s => Text.readInt? (String.ofList (Text.trim s.toList))
  | _ => none

def readInt (annotations : List (String × Json)) (key : String) : Except Failure (Option Int) :=
  match value? annotations key with
  | none => .ok none
  | some found =>
    match int? found with
    | some i => .ok (some i)
    | none => .error (.settings (.integer key found))

def readFloat (annotations : List (String × Json)) (key : String) : Except Failure (Option Float) :=
  match value? annotations key with
  | none => .ok none
  | some found =>
    match found with
    | .number n =>
      match n.toFloat? with
      | some x => .ok (some x)
      | none => .error .tooLarge
    | .text s =>
      match Text.readFloat? (String.ofList (Text.trim s.toList)) with
      | some x => .ok (some x)
      | none => .error (.settings (.real key found))
    | _ => .error (.settings (.real key found))

def readText (annotations : List (String × Json)) (key : String) : Option String :=
  (value? annotations key).map fun found =>
    match found with
    | .text s => s
    | other => other.literal

end Annotations

-- Half the sum of two integers as a double; a sum beyond the range of doubles is too large.
def midpoint (a b : Int) : Except Failure Float :=
  match Binary64.ofInt? (a + b) with
  | some x => .ok (x / 2)
  | none => .error .tooLarge

namespace Defaults

def precision : Float := 1e-9
def maxiter : Int := 200
def samples : Int := 1
def lowerBound : Int := 10
def upperBound : Int := 200
def module : String := "Sampler"

-- The expected size when none is set: the middle of the default window.
def expectedSize : Float := 105

end Defaults

-- The residual bound and the relative width of the bracket, the bound on iterations, and the expected size of the
-- target type.
structure TuningSettings where
  precision : Number
  maxiter : Int
  expectedSize : Option Number
  target : Option String

namespace TuningSettings

def fault? (t : TuningSettings) : Option SettingFault :=
  if !(Number.lt (.int 0) t.precision) then some .precision
  else if t.maxiter < 1 then some .maxiter
  else
    match t.expectedSize with
    | some e => if Number.lt (.int 0) e then none else some .expectedSize
    | none => none

def make (t : TuningSettings) : Except Failure TuningSettings :=
  match t.fault? with
  | some fault => .error (.request (.setting fault))
  | none => .ok t

def default : TuningSettings := ⟨.float Defaults.precision, Defaults.maxiter, none, none⟩

-- Settings with equal values are one key.
def same (a b : TuningSettings) : Bool :=
  a.precision.same b.precision && a.maxiter == b.maxiter && a.target == b.target &&
    match a.expectedSize, b.expectedSize with
    | some x, some y => x.same y
    | none, none => true
    | _, _ => false

def ofSystem (s : Specification) : Except Failure TuningSettings := do
  let lower := (← Annotations.readInt s.annotations "lowerBound").getD Defaults.lowerBound
  let upper := (← Annotations.readInt s.annotations "upperBound").getD Defaults.upperBound
  let precision := (← Annotations.readFloat s.annotations "precision").getD Defaults.precision
  let maxiter := (← Annotations.readInt s.annotations "maxiter").getD Defaults.maxiter
  let middle ← midpoint lower upper
  let expected := (← Annotations.readFloat s.annotations "expectedSize").getD middle
  let target := (Annotations.readText s.annotations "generate").getD s.initial
  let settings : TuningSettings := ⟨.float precision, maxiter, some (.float expected), some target⟩
  match settings.fault? with
  | some fault => .error (.settings (.setting fault))
  | none => .ok settings

end TuningSettings

-- How many structures to draw, the window of accepted sizes, the type to draw, the name handed on to code generators,
-- and the seed.
structure SamplerSettings where
  samples : Int
  lowerBound : Int
  upperBound : Int
  generate : Option String
  module : String
  seed : Option Int

namespace SamplerSettings

def fault? (t : SamplerSettings) : Option SettingFault :=
  if t.samples < 0 then some .samples
  else if t.lowerBound < 0 then some .lowerBound
  else if t.upperBound < t.lowerBound then some .bounds
  else none

def make (t : SamplerSettings) : Except Failure SamplerSettings :=
  match t.fault? with
  | some fault => .error (.request (.setting fault))
  | none => .ok t

def default : SamplerSettings :=
  ⟨Defaults.samples, Defaults.lowerBound, Defaults.upperBound, none, Defaults.module, none⟩

def ofSystem (s : Specification) : Except Failure SamplerSettings := do
  let samples := (← Annotations.readInt s.annotations "samples").getD Defaults.samples
  let lower := (← Annotations.readInt s.annotations "lowerBound").getD Defaults.lowerBound
  let upper := (← Annotations.readInt s.annotations "upperBound").getD Defaults.upperBound
  let generate := (Annotations.readText s.annotations "generate").getD s.initial
  let module := (Annotations.readText s.annotations "module").getD Defaults.module
  let seed ← Annotations.readInt s.annotations "seed"
  let settings : SamplerSettings := ⟨samples, lower, upper, some generate, module, seed⟩
  match settings.fault? with
  | some fault => .error (.settings (.setting fault))
  | none => .ok settings

-- The type to draw: the one set, unless the name is empty, or the initial type.
def start (t : SamplerSettings) (s : Specification) : String :=
  match t.generate with
  | some g => if g.isEmpty then s.initial else g
  | none => s.initial

-- The tuning that suits a request: the expected size of the drawn type lies in the middle of the window, unless the
-- annotated one is inside it already; it is at least one.
def tuning (t : SamplerSettings) (s : Specification) : Except Failure TuningSettings := do
  let base ← TuningSettings.ofSystem s
  let inside (e : Number) : Bool := Number.le (.int t.lowerBound) e && Number.le e (.int t.upperBound)
  let annotated := (Assoc.get? s.annotations "expectedSize").bind fun _ => base.expectedSize.bind fun e =>
    if inside e then e.toFloat? else none
  let goal ←
    match annotated with
    | some e => .ok e
    | none => midpoint t.lowerBound t.upperBound
  TuningSettings.make
    ⟨base.precision, base.maxiter, some (.float (if 1 > goal then 1 else goal)), some (t.start s)⟩

end SamplerSettings

end BoltzmannSampling
