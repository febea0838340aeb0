import BoltzmannSampling.Numeric.Scalar

/-!
Brent's search for a root between two points at which a function has opposite signs: a secant or an inverse
quadratic step where it shortens the bracket enough, else a bisection.
-/

namespace BoltzmannSampling

namespace Brent

variable {α : Type} [Scalar α]

open Scalar (lt abs half negate)

structure Sample (α : Type) where
  x : α
  f : α

-- The previous point, the current one, the one beyond the root, and the last two steps.
structure State (α : Type) where
  previous : Sample α
  current : Sample α
  beyond : Sample α
  lastStep : α
  step : α

def isZero (x : α) : Bool := Scalar.le (abs x) (Scalar.ofNat 0)

def oppose (a b : α) : Bool :=
  !isZero a && !isZero b && (lt a (Scalar.ofNat 0) != lt b (Scalar.ofNat 0))

-- If the root lies between the previous point and the current one, the previous point is the one beyond.
def enclose (s : State α) : State α :=
  if oppose s.previous.f s.current.f then
    let width := s.current.x - s.previous.x
    { s with beyond := s.previous, lastStep := width, step := width }
  else s

-- The current point is the better one of the two around the root.
def improve (s : State α) : State α :=
  if lt (abs s.beyond.f) (abs s.current.f) then
    { s with previous := s.current, current := s.beyond, beyond := s.current }
  else s

-- The step that the secant through two points, or the parabola through three, proposes.
def proposal (s : State α) : α :=
  let p := s.previous; let c := s.current; let b := s.beyond
  if isZero (p.x - b.x) then negate c.f * (c.x - p.x) / (c.f - p.f)
  else
    let dp := (p.f - c.f) / (p.x - c.x)
    let db := (b.f - c.f) / (b.x - c.x)
    negate c.f * (b.f * db - p.f * dp) / (db * dp * (b.f - p.f))

def smaller (a b : α) : α := if lt b a then b else a

-- The next two steps, given the half width of the bracket and the least step.
def advance (s : State α) (bisection delta : α) : α × α :=
  if lt delta (abs s.lastStep) && lt (abs s.current.f) (abs s.previous.f) then
    let proposed := proposal s
    if lt (Scalar.ofNat 2 * abs proposed) (smaller (abs s.lastStep) (Scalar.ofNat 3 * abs bisection - delta)) then
      (s.step, proposed)
    else (bisection, bisection)
  else (bisection, bisection)

def search {ε : Type} (f : α → Except ε α) (xtol rtol : α) : Nat → State α → Except ε (Option α)
  | 0, _ => .ok none
  | rounds + 1, s => do
    let s := improve (enclose s)
    let delta := (xtol + rtol * abs s.current.x) / Scalar.ofNat 2
    let bisection := (s.beyond.x - s.current.x) / Scalar.ofNat 2
    if isZero s.current.f || lt (abs bisection) delta then .ok (some s.current.x)
    else
      let (lastStep, step) := advance s bisection delta
      let x :=
        if lt delta (abs step) then s.current.x + step
        else if lt (Scalar.ofNat 0) bisection then s.current.x + delta
        else s.current.x - delta
      search f xtol rtol rounds ⟨s.current, ⟨x, ← f x⟩, s.beyond, lastStep, step⟩

-- A root between `a` and `b`, within `xtol` and `rtol` of it, in at most `maxiter` steps.
def root {ε : Type} (f : α → Except ε α) (a b xtol rtol : α) (maxiter : Nat) : Except ε (Option α) := do
  let fa ← f a
  let fb ← f b
  if isZero fa then .ok (some a)
  else if isZero fb then .ok (some b)
  else
    let nothing := Scalar.ofNat 0
    search f xtol rtol maxiter ⟨⟨a, fa⟩, ⟨b, fb⟩, ⟨nothing, nothing⟩, nothing, nothing⟩

end Brent

end BoltzmannSampling
