import BoltzmannSampling.Sampler.Plan
import BoltzmannSampling.Structure.Basic

/-!
One attempt to draw a structure, as a machine that takes one decision a step. The nodes under construction form a
stack. A node under construction has finished children, children still to be drawn, and arguments not yet looked at.
The machine counts the atoms, and gives up as soon as they exceed the limit.

There are two orders of drawing. `ahead` draws the lengths of all runs of a node before its first child.
`inPlace` draws every argument with its children before the next one; the continuation keeps its place among the
children but is drawn last.
-/

namespace BoltzmannSampling

-- Where the decisions of an attempt come from: the place of a constructor among those of its type, and whether a run
-- of elements goes on. A source that has no decision to offer gives none.
structure Decider (σ : Type) where
  choose : Dispatch → σ → Option (Nat × σ)
  goesOn : Float → Element → σ → Option (Bool × σ)

namespace Decider

variable {σ : Type}

-- Decisions by numbers in `[0, 1)`, one number each.
def ofNumbers (next : σ → Float × σ) : Decider σ where
  choose d source := let (u, source) := next source; some (d.index u, source)
  goesOn p _ source := let (u, source) := next source; some (u < p, source)

-- The constructor to take of a type. The only one is taken without a decision.
def plan (D : Decider σ) (d : Dispatch) (source : σ) : Option Plan × σ :=
  if d.needsDraw then
    match D.choose d source with
    | some (i, source) => (d.plans[i]?, source)
    | none => (none, source)
  else (d.plans.head?, source)

end Decider

inductive DrawOrder where
  | ahead
  | inPlace
deriving DecidableEq, Repr

-- The place of the continuation among the children of a node: none is kept, one waits for a child of a type, or the
-- child is being drawn.
inductive Hole where
  | none
  | waiting (typeName : String)
  | filling

-- A run of elements being drawn: how many so far.
structure Run where
  count : Nat
  p : Float
  element : Element

-- A node under construction. Finished children stand before or after the hole, the last one first.
structure Frame where
  mark : Nat
  name : String
  typeName : String
  weight : Nat
  before : List Structure
  hole : Hole
  after : List Structure
  calls : List String
  slots : List Slot
  run : Option Run

namespace Frame

def close (f : Frame) : Structure :=
  .node f.mark f.name f.typeName f.weight (f.before.reverse ++ f.after.reverse)

def receive (f : Frame) (s : Structure) : Frame :=
  match f.hole with
  | .none => { f with before := s :: f.before }
  | .waiting _ => { f with after := s :: f.after }
  | .filling => { f with before := s :: f.before, hole := .none }

def take (order : DrawOrder) (f : Frame) (slot : Slot) (rest : List Slot) : Frame :=
  match slot with
  | .child t isContinuation =>
    if isContinuation ∧ order = .inPlace then { f with slots := rest, hole := .waiting t }
    else { f with slots := rest, calls := f.calls ++ [t] }
  | .run p e => { f with slots := rest, run := some ⟨0, p, e⟩ }

-- Ends a run: elements that are types become children, atoms weigh in the node.
def endRun (f : Frame) (r : Run) : Frame :=
  match r.element with
  | .ref t => { f with run := none, calls := f.calls ++ List.replicate r.count t }
  | .atom a => { f with run := none, weight := f.weight + r.count * a.size }

inductive Action where
  | draw (r : Run)
  | look (slot : Slot) (rest : List Slot)
  | call (typeName : String) (rest : List String)
  | continue (typeName : String)
  | finish

def looks (f : Frame) (otherwise : Action) : Action :=
  match f.slots with
  | s :: rest => .look s rest
  | [] => otherwise

def calling (f : Frame) (otherwise : Action) : Action :=
  match f.calls with
  | t :: rest => .call t rest
  | [] => otherwise

def ending (f : Frame) : Action :=
  match f.hole with
  | .waiting t => .continue t
  | _ => .finish

def action (order : DrawOrder) (f : Frame) : Action :=
  match f.run with
  | some r => .draw r
  | none =>
    match order with
    | .ahead => f.looks (f.calling f.ending)
    | .inPlace => f.calling (f.looks f.ending)

end Frame

-- An attempt: the source of numbers, the atoms and the nodes so far, and the nodes under construction, the innermost
-- first.
structure Attempt (σ : Type) where
  source : σ
  size : Nat
  nodes : Nat
  stack : List Frame

-- How a step ends: the attempt goes on, has a structure, is over the limit, or lacks a type, a constructor or a
-- decision.
inductive Progress (σ : Type) where
  | running (a : Attempt σ)
  | done (s : Structure) (a : Attempt σ)
  | exceeded (source : σ)
  | stuck (source : σ)

namespace Attempt

variable {σ : Type} (D : Decider σ)

def isOver (limit : Option Nat) (size : Nat) : Bool :=
  match limit with
  | some l => l < size
  | none => false

def frame (mark : Nat) (typeName : String) (p : Plan) : Frame :=
  ⟨mark, p.constructor, typeName, p.weight, [], .none, [], [], p.slots, none⟩

def start (limit : Option Nat) (a : Attempt σ) (typeName : String) (p : Plan) : Progress σ :=
  let size := a.size + p.weight
  if isOver limit size then .exceeded a.source
  else .running { a with size, nodes := a.nodes + 1, stack := frame a.nodes typeName p :: a.stack }

def enter (s : Sampler) (limit : Option Nat) (a : Attempt σ) (typeName : String) : Progress σ :=
  match s.dispatch? typeName with
  | none => .stuck a.source
  | some d =>
    match D.plan d a.source with
    | (some p, source) => start limit { a with source } typeName p
    | (none, source) => .stuck source

def drawRun (limit : Option Nat) (a : Attempt σ) (f : Frame) (rest : List Frame) (r : Run) : Progress σ :=
  match D.goesOn r.p r.element a.source with
  | none => .stuck a.source
  | some (true, source) =>
    let size := a.size + r.element.atomSize
    if isOver limit size then .exceeded source
    else .running { a with source, size, stack := { f with run := some { r with count := r.count + 1 } } :: rest }
  | some (false, source) => .running { a with source, stack := f.endRun r :: rest }

def finish (a : Attempt σ) (f : Frame) (rest : List Frame) : Progress σ :=
  match rest with
  | [] => .done f.close { a with stack := [] }
  | parent :: others => .running { a with stack := parent.receive f.close :: others }

def step (s : Sampler) (order : DrawOrder) (limit : Option Nat) (a : Attempt σ) : Progress σ :=
  match a.stack with
  | [] => .stuck a.source
  | f :: rest =>
    match f.action order with
    | .draw r => drawRun D limit a f rest r
    | .look slot slots => .running { a with stack := f.take order slot slots :: rest }
    | .call t calls => enter D s limit { a with stack := { f with calls } :: rest } t
    | .continue t => enter D s limit { a with stack := { f with hole := .filling } :: rest } t
    | .finish => finish a f rest

def steps (s : Sampler) (order : DrawOrder) (limit : Option Nat) : Nat → Attempt σ → Progress σ
  | 0, a => .running a
  | fuel + 1, a =>
    match step D s order limit a with
    | .running b => steps s order limit fuel b
    | other => other

def draw (s : Sampler) (order : DrawOrder) (limit : Option Nat) (fuel : Nat) (source : σ) (typeName : String) :
    Progress σ :=
  match enter D s limit ⟨source, 0, 0, []⟩ typeName with
  | .running a => steps D s order limit fuel a
  | other => other

end Attempt

end BoltzmannSampling
