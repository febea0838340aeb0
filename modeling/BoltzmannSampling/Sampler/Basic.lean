import BoltzmannSampling.Random.Generator
import BoltzmannSampling.Sampler.Machine

/-!
Drawing structures of a type whose size lies in a window: attempts are repeated until one does. Several structures
are drawn from streams of their own, so that each depends on its stream alone.
-/

namespace BoltzmannSampling

-- What to draw: a type, the least and the greatest size, and how many attempts may fail.
structure DrawRequest where
  start : Option String
  lower : Number
  upper : Number
  maxAttempts : Option Int

namespace DrawRequest

def limit (r : DrawRequest) : Option Nat := r.upper.floor?.map Int.toNat

def reaches (r : DrawRequest) (size : Nat) : Bool := Number.le r.lower (.int size)

end DrawRequest

namespace Sampler

def order (s : Sampler) : DrawOrder := if s.rational then .inPlace else .ahead

-- The type to draw: one of the declared ones. The window must not be empty or below zero.
def check (s : Sampler) (r : DrawRequest) : Except Failure String :=
  match r.start.bind s.system.type? with
  | none => .error (.request (.start r.start))
  | some t =>
    if t.isAuxiliary then .error (.request (.auxiliaryStart t.name))
    else if Number.lt r.lower (.int 0) then .error (.request (.negativeLower r.lower))
    else if Number.lt r.upper r.lower then .error (.request (.bounds r.lower r.upper))
    else .ok t.name

-- How many steps one attempt may take before it is given up: more than can be waited for.
def patience : Nat := tenTo 15

-- Attempts until one is accepted, and the source after them; `made` attempts have been rejected before.
def attempts {σ : Type} (D : Decider σ) (s : Sampler) (r : DrawRequest) (typeName : String) :
    Nat → Nat → σ → Except Failure Structure × σ
  | 0, made, source => (.error (.sampling (.attemptsExceeded made r.lower r.upper)), source)
  | left + 1, made, source =>
    match Attempt.draw D s s.order r.limit patience source typeName with
    | .done found a => if r.reaches a.size then (.ok found, a.source) else attempts D s r typeName left (made + 1) a.source
    | .exceeded source => attempts D s r typeName left (made + 1) source
    | .stuck source => (.error .absent, source)
    | .running a => (.error .unfinished, a.source)

def attemptsOf (r : DrawRequest) : Except Failure Nat :=
  match r.maxAttempts with
  | none => .ok patience
  | some n => if n < 1 then .error (.request .maxAttempts) else .ok n.toNat

-- A structure drawn with a generator, and the generator after it. It moves on by whole blocks.
def sample (s : Sampler) (r : DrawRequest) (g : Generator) : Except Failure Structure × Generator :=
  match s.check r, attemptsOf r with
  | .error e, _ => (.error e, g)
  | _, .error e => (.error e, g)
  | .ok typeName, .ok bound =>
    let (found, stream) := attempts (Decider.ofNumbers Stream.next) s r typeName bound 0 (Stream.start g)
    (found, stream.generator)

def sampleOwn (s : Sampler) (r : DrawRequest) (e : Entropy) : Except Failure Structure :=
  (s.sample r (Generator.ofEntropy e)).1

def checkCount (count : Int) : Except Failure Unit :=
  if count < 0 then .error (.request (.negativeCount count)) else .ok ()

-- Structures drawn one from each child of an entropy, and the entropy after them; the first failure counts.
def sampleMany (s : Sampler) (r : DrawRequest) (count : Int) (entropy : Except Failure Entropy) :
    Except Failure (List Structure) × Except Failure Entropy :=
  match checkCount count, s.check r, entropy with
  | .error e, _, _ => (.error e, entropy)
  | _, .error e, _ => (.error e, entropy)
  | _, _, .error e => (.error e, entropy)
  | .ok (), .ok _, .ok e =>
    let (children, later) := e.spawn count.toNat
    (children.mapM (s.sampleOwn r), .ok later)

end Sampler

end BoltzmannSampling
