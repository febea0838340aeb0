import Mathlib
import BoltzmannSampling.Proofs.Sampler.Decisions
import BoltzmannSampling.Sampler.Basic

/-!
Requests step by step. A step takes one number or none, and depends on no other number. So the numbers that a request
has been given tell whether it has stopped, whatever the source of its numbers is.
-/

namespace BoltzmannSampling

-- The same number again and again, for the steps that take one number at most.
def Decider.always (u : Float) : Decider Unit := .ofNumbers fun _ => (u, ())

namespace Progress

variable {σ : Type}

def on (source : σ) : Progress Unit → Progress σ
  | running a    => running ⟨source, a.size, a.nodes, a.stack⟩
  | done found a => done found ⟨source, a.size, a.nodes, a.stack⟩
  | exceeded _   => exceeded source
  | stuck _      => stuck source

end Progress

namespace Attempt

variable {σ : Type} (s : Sampler) (order : DrawOrder) (limit : Option Nat)

def on (a : Attempt Unit) (source : σ) : Attempt σ := ⟨source, a.size, a.nodes, a.stack⟩

-- Whether a number is taken when a node of a type begins, and by a step.
def entersDrawing (T : String) : Bool := (s.dispatch? T).any Dispatch.needsDraw

def draws (a : Attempt Unit) : Bool :=
  match a.stack with
  | [] => false
  | f :: _ =>
    match f.action order with
    | .draw _                  => true
    | .call T _ | .continue T  => entersDrawing s T
    | .look _ _ | .finish      => false

variable {s order limit} {a : Attempt Unit} {T : String} {next : σ → Float × σ} {source : σ}

theorem start_on (a : Attempt Unit) (T : String) (p : Plan) (source : σ) :
    start limit (a.on source) T p = (start limit a T p).on source := by
  simp only [start, on]
  by_cases hw : isOver limit (a.size + p.weight)
  case pos => simp only [hw, if_true, Progress.on]
  case neg => simp only [hw, if_false, Bool.false_eq_true, Progress.on]

theorem enter_on (a : Attempt Unit) (T : String) (next : σ → Float × σ) (source : σ) :
    enter (.ofNumbers next) s limit (a.on source) T =
      (enter (.always (next source).1) s limit a T).on (bif entersDrawing s T then (next source).2 else source) := by
  simp only [enter, entersDrawing]
  cases s.dispatch? T
  case none   => rfl
  case some d =>
    simp only [Decider.plan, Option.any_some]
    cases d.needsDraw
    case false =>
      cases d.plans.head?
      case none   => rfl
      case some p => exact start_on a T p source
    case true  =>
      simp only [Decider.always, Decider.ofNumbers, if_true, on]
      cases d.plans[d.index (next source).1]?
      case none   => rfl
      case some p => exact start_on a T p (next source).2

theorem enter_free (h : entersDrawing s T = false) (a : Attempt Unit) (u v : Float) :
    enter (.always u) s limit a T = enter (.always v) s limit a T := by
  simp only [enter, entersDrawing] at h ⊢
  cases hd : s.dispatch? T
  case none   => rfl
  case some d =>
    rw [hd, Option.any_some] at h
    simp [Decider.plan, h]

theorem step_on (a : Attempt Unit) (next : σ → Float × σ) (source : σ) :
    step (.ofNumbers next) s order limit (a.on source) =
      (step (.always (next source).1) s order limit a).on (bif draws s order a then (next source).2 else source) := by
  obtain ⟨_, size, nodes, _ | ⟨f, rest⟩⟩ := a
  case nil  => rfl
  case cons =>
    simp only [step, on, draws]
    cases f.action order
    case draw r =>
      simp only [drawRun, Decider.always, Decider.ofNumbers]
      cases decide ((next source).1 < r.p)
      case false => rfl
      case true  =>
        simp only
        split_ifs <;> rfl
    case look       => rfl
    case call t ts  => exact enter_on ⟨(), size, nodes, { f with calls := ts } :: rest⟩ t next source
    case «continue» t => exact enter_on ⟨(), size, nodes, { f with hole := .filling } :: rest⟩ t next source
    case finish     => cases rest <;> rfl

theorem step_free (h : draws s order a = false) (u v : Float) :
    step (.always u) s order limit a = step (.always v) s order limit a := by
  obtain ⟨_, size, nodes, _ | ⟨f, rest⟩⟩ := a
  case nil  => simp only [step]
  case cons =>
    simp only [step, draws] at h ⊢
    cases ha : f.action order <;> simp only [ha, Bool.true_eq_false] at h ⊢
    case call | «continue» => exact enter_free h _ u v

end Attempt

-- What a request is at: how many attempts it may still begin, and the attempt it is in.
structure Stage where
  left : Nat
  attempt : Option (Attempt Unit)

namespace Stage

open Attempt

variable (s : Sampler) (order : DrawOrder) (limit : Option Nat) (T : String)

def draws (x : Stage) : Bool :=
  match x.attempt with
  | some a => Attempt.draws s order a
  | none   => entersDrawing s T

-- What follows on an attempt that has come so far; nothing if it lacks something.
def after (left : Nat) : Progress Unit → Option Stage
  | .running a  => some ⟨left, some a⟩
  | .done _ _   => some ⟨left, none⟩
  | .exceeded _ => some ⟨left, none⟩
  | .stuck _    => none

def step (u : Float) (x : Stage) : Option Stage :=
  match x.attempt, x.left with
  | some a, left     => after left (Attempt.step (.always u) s order limit a)
  | none, left + 1 => after left (enter (.always u) s limit ⟨(), 0, 0, []⟩ T)
  | none, 0        => none

-- The attempts all end with the first of these numbers.
inductive Stops : Stage → List Float → Prop
  | finished {us} : Stops ⟨0, none⟩ us
  | drawn {x y u us} (draws : x.draws s order T = true) (next : x.step s order limit T u = some y)
      (later : Stops y us) : Stops x (u :: us)
  | free {x y u us} (draws : x.draws s order T = false) (next : x.step s order limit T u = some y)
      (later : Stops y us) : Stops x us

variable {s order limit T} {x : Stage} {us : List Float}

theorem Stops.append (h : Stops s order limit T x us) (vs : List Float) : Stops s order limit T x (us ++ vs) := by
  induction h
  case finished                 => exact .finished
  case drawn draws next _ later => exact .drawn draws next later
  case free draws next _ later  => exact .free draws next later

end Stage

namespace Sampler

variable {σ : Type}

-- What a request makes of an attempt, where the others follow one that is rejected.
def settle (r : DrawRequest) (others : Nat → σ → Except Failure Structure × σ) (made : Nat) :
    Progress σ → Except Failure Structure × σ
  | .done found a    => if r.reaches a.size then (.ok found, a.source) else others (made + 1) a.source
  | .exceeded source => others (made + 1) source
  | .stuck source    => (.error .absent, source)
  | .running a       => (.error .unfinished, a.source)

-- Attempts of so many steps at most.
def attemptsWithin (fuel : Nat) (D : Decider σ) (s : Sampler) (r : DrawRequest) (T : String) :
    Nat → Nat → σ → Except Failure Structure × σ
  | 0, made, source        => (.error (.sampling (.attemptsExceeded made r.lower r.upper)), source)
  | left + 1, made, source =>
    settle r (attemptsWithin fuel D s r T left) made (Attempt.draw D s s.order r.limit fuel source T)

theorem attempts_eq (D : Decider σ) (s : Sampler) (r : DrawRequest) (T : String) :
    attempts D s r T = attemptsWithin patience D s r T := by
  funext left made source
  induction left generalizing made source
  case zero         => rfl
  case succ left hi =>
    rw [attempts, attemptsWithin]
    simp only [hi]
    cases Attempt.draw D s s.order r.limit patience source T <;> rfl

-- A request comes to its end: it has a structure, or so many attempts have been rejected.
def Concluded (r : DrawRequest) (attempts : Nat) : Except Failure Structure → Prop
  | .ok _    => True
  | .error e => e = .sampling (.attemptsExceeded attempts r.lower r.upper)

end Sampler

namespace Stage

open Sampler

variable {σ : Type} {s : Sampler} {r : DrawRequest} {T : String} {x y : Stage} {us : List Float}
variable {next : σ → Float × σ} {source source' : σ}

-- The attempts that have not been rejected yet.
def outstanding (x : Stage) : Nat := x.left + x.attempt.toList.length

theorem step_free {order : DrawOrder} {limit : Option Nat} (h : x.draws s order T = false) (u v : Float) :
    x.step s order limit T u = x.step s order limit T v := by
  obtain ⟨left, _ | a⟩ := x
  · cases left
    case zero => rfl
    case succ left => exact congrArg (after left) (Attempt.enter_free h _ u v)
  · exact congrArg (after left) (Attempt.step_free h u v)

-- The rest of a request: the attempt it is in has so many steps, and the others have so many each.
def resume (fuel k : Nat) (next : σ → Float × σ) (s : Sampler) (r : DrawRequest) (T : String) (made : Nat)
    (source : σ) (x : Stage) : Except Failure Structure × σ :=
  let others := attemptsWithin fuel (.ofNumbers next) s r T x.left
  match x.attempt with
  | some a => settle r others made (Attempt.steps (.ofNumbers next) s s.order r.limit k (a.on source))
  | none   => others made source

theorem settle_concluded {left made enough : Nat} {P : Progress Unit} (hs : after left P = some y)
    (later : ∀ made fuel k, enough ≤ fuel → enough ≤ k →
      Concluded r (made + y.outstanding) (y.resume fuel k next s r T made source).1)
    {fuel k : Nat} (hf : enough ≤ fuel) (hk : enough ≤ k) :
    Concluded r (made + left + 1) (settle r (attemptsWithin fuel (.ofNumbers next) s r T left) made
      (match P.on source with
      | .running a => Attempt.steps (.ofNumbers next) s s.order r.limit k a
      | other => other)).1 := by
  cases P
  case running a =>
    cases hs
    exact later made fuel k hf hk
  case done found a =>
    cases hs
    simp only [Progress.on, settle]
    split
    case isTrue  => trivial
    case isFalse =>
      have := later (made + 1) fuel k hf hk
      rwa [outstanding, Option.toList_none, List.length_nil, Nat.add_right_comm] at this
  case exceeded =>
    cases hs
    have := later (made + 1) fuel k hf hk
    rwa [outstanding, Option.toList_none, List.length_nil, Nat.add_right_comm] at this
  case stuck => cases hs

theorem step_concluded {made enough : Nat} (hs : x.step s s.order r.limit T (next source).1 = some y)
    (later : ∀ made fuel k, enough ≤ fuel → enough ≤ k → Concluded r (made + y.outstanding)
      (y.resume fuel k next s r T made (bif x.draws s s.order T then (next source).2 else source)).1)
    {fuel k : Nat} (hf : enough + 1 ≤ fuel) (hk : enough + 1 ≤ k) :
    Concluded r (made + x.outstanding) (x.resume fuel k next s r T made source).1 := by
  obtain ⟨left, _ | a⟩ := x
  · cases left
    case zero => cases hs
    case succ left =>
      simp only [resume, attemptsWithin, Attempt.draw]
      rw [show (⟨source, 0, 0, []⟩ : Attempt σ) = (⟨(), 0, 0, []⟩ : Attempt Unit).on source from rfl, Attempt.enter_on]
      exact settle_concluded hs later (Nat.le_of_succ_le hf) (Nat.le_of_succ_le hf)
  · obtain ⟨k, rfl⟩ := Nat.exists_eq_succ_of_ne_zero (show k ≠ 0 by omega)
    simp only [resume, Attempt.steps]
    rw [Attempt.step_on]
    exact settle_concluded hs later (Nat.le_of_succ_le hf) (by omega)

theorem Stops.concluded (h : Stops s s.order r.limit T x us) (hd : Decider.Draws next us source source') :
    ∃ enough, ∀ made fuel k, enough ≤ fuel → enough ≤ k →
      Concluded r (made + x.outstanding) (x.resume fuel k next s r T made source).1 := by
  induction h generalizing source
  case finished => exact ⟨0, fun made fuel k _ _ => rfl⟩
  case drawn draws hs _ hi =>
    cases hd
    case cons rest =>
      have ⟨enough, later⟩ := hi rest
      exact ⟨enough + 1, fun made fuel k => step_concluded hs (by rwa [draws])⟩
  case free draws hs _ hi =>
    have ⟨enough, later⟩ := hi hd
    exact ⟨enough + 1, fun made fuel k => step_concluded ((step_free draws _ _).trans hs) (by rwa [draws])⟩

end Stage

end BoltzmannSampling
