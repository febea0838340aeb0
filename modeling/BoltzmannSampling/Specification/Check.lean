import BoltzmannSampling.Specification.Graph
import BoltzmannSampling.Specification.Productive

/-!
The check of a system. It is well-founded if every type is productive and none lies on a cycle of the zero-size
graph. A well-founded system is rational if no constructor refers more than once into the component of its own
type, and algebraic otherwise. The strict check refuses a system that is not well-founded; the forced one takes
it as ill-formed. Warnings are reported, and `enforce` decides whether they count as errors.
-/

namespace BoltzmannSampling

inductive Classification where
  | rational
  | algebraic
  | illFormed
deriving DecidableEq, Repr

namespace Classification

def text : Classification → String
  | rational => "rational"
  | algebraic => "algebraic"
  | illFormed => "ill-formed"

def ofText? (s : String) : Option Classification :=
  [rational, algebraic, illFormed].find? (·.text == s)

end Classification

inductive Severity where
  | warning
  | error
deriving DecidableEq, Repr

namespace Severity

def text : Severity → String
  | warning => "warning"
  | error => "error"

end Severity

inductive Finding where
  | flaw (typeName : String) (flaw : Flaw)
  | dead (typeName initial : String)
  | trivial (typeName : String)
  | metadata (applied : List String)
deriving DecidableEq

namespace Finding

def severity : Finding → Severity
  | flaw .. => .error
  | _ => .warning

def code : Finding → String
  | flaw _ .nonProductive => "NON_PRODUCTIVE"
  | flaw _ .zeroSizeCycle => "ZERO_SIZE_CYCLE"
  | dead .. => "DEAD_TYPE"
  | trivial .. => "TRIVIAL_TYPE"
  | metadata _ => "MISSING_METADATA"

def message : Finding → String
  | flaw t f => "Type " ++ Text.quoted t ++ " " ++ f.description ++ "."
  | dead t i => "Type " ++ Text.quoted t ++ " is not reachable from the initial type " ++ Text.quoted i ++ "."
  | trivial t => "Type " ++ Text.quoted t ++ " has a single constructor referencing no type."
  | metadata applied =>
    "No explicit size/sample annotations; using defaults " ++ Text.joined ", " applied ++ "."

def typeName? : Finding → Option String
  | flaw t _ => some t
  | dead t _ => some t
  | trivial t => some t
  | metadata _ => none

def text (f : Finding) : String :=
  f.severity.text ++ "[" ++ f.code ++ "]: " ++ f.message

end Finding

structure Checked where
  system : Specification
  classification : Classification
  findings : List Finding

namespace Checked

def warnings (c : Checked) : List Finding := c.findings.filter (·.severity == .warning)

def errors (c : Checked) : List Finding := c.findings.filter (·.severity == .error)

def wellFounded (c : Checked) : Bool := c.classification != .illFormed

end Checked

namespace Specification

-- For every constructor, how many of its arguments refer into the component of its own type.
def recursiveArity (s : Specification) : List (String × Nat) :=
  let component := s.components
  s.productions.map fun (t, c) =>
    (c.name, (c.refs.filter fun r => Assoc.get? component r == Assoc.get? component t.name).length)

def classify (s : Specification) : Classification :=
  if s.recursiveArity.all (·.2 ≤ 1) then .rational else .algebraic

-- The types that are not productive, then those on a zero-size cycle, each in table order.
def flaws (s : Specification) : List (String × Flaw) :=
  let productive := s.productive
  let cyclic := s.zeroSizeCyclic
  (s.names.filter (!productive.contains ·)).map (·, .nonProductive) ++
    (s.names.filter (cyclic.contains ·)).map (·, .zeroSizeCycle)

def assumed : List (String × Nat) := [("samples", 1), ("lowerBound", 10), ("upperBound", 200)]

def typeWarnings (s : Specification) (reachable : List String) (t : TypeDef) : List Finding :=
  (if reachable.contains t.name then [] else [.dead t.name s.initial]) ++
    match t.constructors with
    | [c] => if c.refs.isEmpty then [.trivial t.name] else []
    | _ => []

def warnings (s : Specification) : List Finding :=
  let reachable := s.reachable
  let missing := assumed.filter fun (key, _) => (Assoc.get? s.annotations key).isNone
  s.userTypes.flatMap (s.typeWarnings reachable) ++
    if missing.isEmpty then []
    else [.metadata (missing.map fun (key, value) => "@" ++ key ++ " = " ++ toString value)]

def firstFlaw? (s : Specification) (flaws : List (String × Flaw)) : Option (String × Flaw) :=
  s.names.findSome? fun name => flaws.find? (·.1 == name)

def check (s : Specification) (allowUnsafe : Bool) : Except Failure Checked :=
  let flaws := s.flaws
  match s.firstFlaw? flaws with
  | none => .ok ⟨s, s.classify, s.warnings⟩
  | some (name, flaw) =>
    if allowUnsafe then .ok ⟨s, .illFormed, flaws.map (fun (t, f) => .flaw t f) ++ s.warnings⟩
    else .error (.check (.illFounded name flaw))

end Specification

namespace Checked

-- The warnings of a checked system; with `strict` there must be none.
def enforce (c : Checked) (strict : Bool) : Except Failure (List Finding) :=
  if strict && !c.warnings.isEmpty then .error (.check (.warnings (c.warnings.map Finding.message)))
  else .ok c.warnings

end Checked

end BoltzmannSampling
