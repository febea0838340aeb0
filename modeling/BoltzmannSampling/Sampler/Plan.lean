import BoltzmannSampling.Tuning.Tuned
import BoltzmannSampling.Specification.Graph

/-!
What a sampler needs to know of a tuned system: for every type the thresholds of its constructors and, for every
constructor, its atoms and its arguments. A reference to a sequence or set is an argument of its own, which is drawn
as a run of elements and leaves no node.
-/

namespace BoltzmannSampling

-- An argument of a constructor: a child of a type, or a run of elements that goes on with a probability. A child is
-- the continuation if its type lies in the component of its parent's type.
inductive Slot where
  | child (typeName : String) (isContinuation : Bool)
  | run (p : Float) (element : Element)

structure Plan where
  constructor : String
  weight : Nat
  slots : List Slot

structure Dispatch where
  typeName : String
  thresholds : List Float
  plans : List Plan

-- The first index at which a number is below the threshold, by bisection between two indices.
def searchRight {α : Type} [Scalar α] (hs : Array α) (u : α) (low high : Nat) : Nat :=
  if low < high then
    let middle := low + (high - low) / 2
    if Scalar.le (hs.getD middle (Scalar.ofNat 1)) u then searchRight hs u (middle + 1) high
    else searchRight hs u low middle
  else low
termination_by high - low

namespace Dispatch

def needsDraw (d : Dispatch) : Bool := d.plans.length != 1

def index (d : Dispatch) (u : Float) : Nat :=
  searchRight d.thresholds.toArray u 0 d.thresholds.length

end Dispatch

-- A sampler of a tuned system. Rational systems are sampled along their continuations.
structure Sampler where
  system : Specification
  rational : Bool
  table : List Dispatch

namespace Sampler

def slotOf (tuned : Tuned) (component : String → Option String) (owner : TypeDef) (reference : String) : Slot :=
  match tuned.system.type? reference with
  | some ⟨_, _, .auxiliary _ e⟩ => .run (((tuned.probabilitiesOf? reference).getD []).getD 1 0) e
  | _ => .child reference (component reference == component owner.name)

-- Only the last of several continuations is one.
def lastContinuation : List Slot → List Slot
  | [] => []
  | s :: rest =>
    let later := rest.any fun | .child _ c => c | .run .. => false
    match s with
    | .child t c => .child t (c && !later) :: lastContinuation rest
    | .run p e => .run p e :: lastContinuation rest

def planOf (tuned : Tuned) (component : String → Option String) (owner : TypeDef) (c : Constructor Symbol) : Plan :=
  ⟨c.name, c.size, lastContinuation (c.refs.map (slotOf tuned component owner))⟩

def ofTuned (tuned : Tuned) : Sampler :=
  let components := tuned.system.components
  ⟨tuned.system, tuned.classification == .rational, tuned.rows.map fun (t, ps) =>
    ⟨t.name, thresholds ps, t.constructors.map (planOf tuned (Assoc.get? components) t)⟩⟩

def dispatch? (s : Sampler) (typeName : String) : Option Dispatch :=
  s.table.find? (·.typeName == typeName)

end Sampler

end BoltzmannSampling
