import Mathlib
import BoltzmannSampling.Proofs.Pool
import BoltzmannSampling.Proofs.Sampler.Stages

/-!
Drawing a structure as a job of its own that makes one step at a time: it takes a number, or makes a step of the attempt
that it is in, or begins the next attempt. The tables of the sampler are all that it shares with other jobs, and no step
changes them.

A job ends in what `Sampler.sample` gives, unless it is at work for longer than can be waited for.
-/

namespace BoltzmannSampling

-- How many attempts may be rejected and how many have been, the attempt that the job is in, a number that it has taken
-- and not used yet, and where the numbers come from.
structure Job where
  typeName : String
  bound : Option Nat
  made : Nat
  attempt : Option (Attempt Unit)
  number : Option Float
  source : Stream

namespace Job

def within (j : Job) (a : Attempt Stream) : Job :=
  { j with attempt := some ⟨(), a.size, a.nodes, a.stack⟩, number := none, source := a.source }

def again (j : Job) (source : Stream) : Job :=
  { j with made := j.made + 1, attempt := none, number := none, source := source }

def follow (r : DrawRequest) (j : Job) : Progress Stream → Job ⊕ Except Failure Structure
  | .running a       => .inl (j.within a)
  | .done found a    => if r.reaches a.size then .inr (.ok found) else .inl (j.again a.source)
  | .exceeded source => .inl (j.again source)
  | .stuck _         => .inr (.error .absent)

-- No attempt is left.
def isOut (j : Job) : Bool := j.attempt.isNone && j.bound.any (· ≤ j.made)

def draws (s : Sampler) (j : Job) : Bool :=
  match j.attempt with
  | some a => Attempt.draws s s.order a
  | none   => Attempt.entersDrawing s j.typeName

def progress (s : Sampler) (r : DrawRequest) (j : Job) (u : Float) : Progress Unit :=
  match j.attempt with
  | some a => Attempt.step (.always u) s s.order r.limit a
  | none   => Attempt.enter (.always u) s r.limit ⟨(), 0, 0, []⟩ j.typeName

-- A step that needs a number takes it first.
def step (s : Sampler) (r : DrawRequest) (j : Job) : Job ⊕ Except Failure Structure :=
  if j.isOut then .inr (.error (.sampling (.attemptsExceeded j.made r.lower r.upper)))
  else if j.draws s && j.number.isNone then .inl { j with number := some j.source.next.1, source := j.source.next.2 }
  else j.follow r ((j.progress s r (j.number.getD 0)).on j.source)

end Job

-- A job that somebody has asked for, with a generator of its own, or that has begun.
inductive Task where
  | asked (g : Generator)
  | begun (j : Job)

namespace Sampler

def boundOf (r : DrawRequest) : Except Failure (Option Nat) :=
  match r.maxAttempts with
  | none   => .ok none
  | some _ => (attemptsOf r).map some

def work (s : Sampler) (r : DrawRequest) : Machine Task Failure Structure
  | .asked g =>
    match s.check r, boundOf r with
    | .error e, _             => .inr (.error e)
    | _, .error e             => .inr (.error e)
    | .ok typeName, .ok bound => .inl (.begun ⟨typeName, bound, 0, none, none, Stream.start g⟩)
  | .begun j => (j.step s r).map .begun id

end Sampler

namespace Job

open Sampler

variable {s : Sampler} {r : DrawRequest} {j : Job}

theorem isOut_iff : j.isOut = true ↔ j.attempt = none ∧ ∃ b, j.bound = some b ∧ b ≤ j.made := by
  simp [isOut, Option.any_eq_true]

theorem step_out (out : j.isOut = true) :
    j.step s r = .inr (.error (.sampling (.attemptsExceeded j.made r.lower r.upper))) :=
  if_pos out

theorem step_take (left : j.isOut = false) (draws : j.draws s = true) (fresh : j.number = none) :
    j.step s r = .inl { j with number := some j.source.next.1, source := j.source.next.2 } := by
  simp [step, left, draws, fresh]

theorem step_act (left : j.isOut = false) (ready : (j.draws s && j.number.isNone) = false) :
    j.step s r = j.follow r ((j.progress s r (j.number.getD 0)).on j.source) := by
  simp [step, left, ready]

theorem progress_free (h : j.draws s = false) (u v : Float) : j.progress s r u = j.progress s r v := by
  obtain ⟨_, _, _, _ | a, _, _⟩ := j
  · exact Attempt.enter_free h ..
  · exact Attempt.step_free h ..

theorem follow_of_same {j' : Job} (ht : j'.typeName = j.typeName) (hb : j'.bound = j.bound) (hm : j'.made = j.made)
    (P : Progress Stream) : j'.follow r P = j.follow r P := by
  cases P <;> simp only [follow, within, again, ht, hb, hm]

-- What the step that a job makes next comes to, with the number that it takes.
def next (s : Sampler) (r : DrawRequest) (j : Job) : Progress Stream :=
  (j.progress s r j.source.next.1).on (bif j.draws s then j.source.next.2 else j.source)

theorem next_comes (left : j.isOut = false) (fresh : j.number = none) :
    ∃ m, (s.work r).Comes (.begun j) (m + 1) ((j.follow r (j.next s r)).map .begun id) := by
  cases hd : j.draws s
  case false =>
    have acts : j.step s r = j.follow r (j.next s r) := by
      rw [step_act left (by rw [hd, Bool.false_and]), next, hd, cond_false, progress_free hd]
    exact ⟨0, acts ▸ (s.work r).comes_once (.begun j)⟩
  case true =>
    let j' : Job := { j with number := some j.source.next.1, source := j.source.next.2 }
    have takes : s.work r (.begun j) = .inl (.begun j') := by
      rw [work, step_take left hd fresh]
      rfl
    have acts : j'.step s r = j.follow r (j.next s r) := by
      refine (step_act (j := j') left (Bool.and_false _)).trans ?_
      rw [next, hd, cond_true]
      exact follow_of_same rfl rfl rfl _
    have once : (s.work r).Comes (.begun j') 1 ((j.follow r (j.next s r)).map .begun id) :=
      acts ▸ (s.work r).comes_once (.begun j')
    exact ⟨1, (Machine.Reaches.more takes .here).comes once⟩

theorem follow_within (a : Attempt Stream) (P : Progress Stream) : (j.within a).follow r P = j.follow r P :=
  follow_of_same rfl rfl rfl P

theorem next_within (a : Attempt Stream) :
    (j.within a).next s r = Attempt.step (.ofNumbers Stream.next) s s.order r.limit a :=
  (Attempt.step_on ⟨(), a.size, a.nodes, a.stack⟩ Stream.next a.source).symm

-- A job comes to what ends an attempt, or it lasts as long as the attempt has gone on.
def Follows (s : Sampler) (r : DrawRequest) (j : Job) (x : Task) (k : Nat) : Progress Stream → Prop
  | .running _ => (s.work r).Lasts x k
  | ended      => ∃ n > 0, (s.work r).Comes x n ((j.follow r ended).map .begun id)

variable {x : Task} {y : Job} {m k : Nat} {P : Progress Stream} {a : Attempt Stream}

theorem Follows.after (h : Follows s r j (.begun y) k P) (reaches : (s.work r).Reaches x (m + 1) (.begun y)) :
    Follows s r j x (k + 1) P := by
  cases P
  case running =>
    have ⟨n, hn, z, later⟩ := reaches.lasts h
    exact ⟨n, by omega, z, later⟩
  all_goals
    have ⟨n, hn, comes⟩ := h
    exact ⟨m + 1 + n, by omega, reaches.comes comes⟩

-- What an attempt that has come so far comes to in so many steps more.
def goOn (s : Sampler) (r : DrawRequest) (k : Nat) : Progress Stream → Progress Stream
  | .running a => Attempt.steps (.ofNumbers Stream.next) s s.order r.limit k a
  | ended      => ended

theorem goOn_succ (k : Nat) (a : Attempt Stream) : goOn s r (k + 1) (.running a) =
    goOn s r k (Attempt.step (.ofNumbers Stream.next) s s.order r.limit a) := by
  rw [goOn, Attempt.steps]
  cases Attempt.step (.ofNumbers Stream.next) s s.order r.limit a <;> rfl

theorem draw_eq_goOn (fuel : Nat) (source : Stream) (T : String) :
    Attempt.draw (.ofNumbers Stream.next) s s.order r.limit fuel source T =
      goOn s r fuel (Attempt.enter (.ofNumbers Stream.next) s r.limit ⟨source, 0, 0, []⟩ T) := by
  rw [Attempt.draw]
  cases Attempt.enter (.ofNumbers Stream.next) s r.limit ⟨source, 0, 0, []⟩ T <;> rfl

theorem goOn_follows (comes : (s.work r).Comes x (m + 1) ((j.follow r P).map .begun id))
    (later : ∀ a, Follows s r j (.begun (j.within a)) k (goOn s r k (.running a))) :
    Follows s r j x (k + 1) (goOn s r k P) := by
  cases P
  case running a => exact (later a).after comes
  all_goals exact ⟨m + 1, Nat.succ_pos m, comes⟩

theorem running_follows (k : Nat) (a : Attempt Stream) :
    Follows s r j (.begun (j.within a)) k (goOn s r k (.running a)) := by
  induction k generalizing a
  case zero      => exact ⟨0, Nat.le_refl 0, _, .here⟩
  case succ k hi =>
    have ⟨m, comes⟩ := next_comes (s := s) (r := r) (j := j.within a) rfl rfl
    rw [follow_within, next_within] at comes
    rw [goOn_succ]
    exact goOn_follows comes hi

theorem draw_follows (left : j.isOut = false) (between : j.attempt = none) (fresh : j.number = none) (fuel : Nat) :
    Follows s r j (.begun j) (fuel + 1)
      (Attempt.draw (.ofNumbers Stream.next) s s.order r.limit fuel j.source j.typeName) := by
  have ⟨m, comes⟩ := next_comes (s := s) (r := r) left fresh
  have enters : j.next s r = Attempt.enter (.ofNumbers Stream.next) s r.limit ⟨j.source, 0, 0, []⟩ j.typeName := by
    rw [next, progress, draws, between]
    exact (Attempt.enter_on ⟨(), 0, 0, []⟩ j.typeName Stream.next j.source).symm
  rw [enters] at comes
  rw [draw_eq_goOn]
  exact goOn_follows comes (running_follows fuel)

-- A job at work has not made more attempts than it may, and is not in one beyond those.
def Bounded (j : Job) : Prop := ∀ b, j.bound = some b → j.made ≤ b ∧ (j.attempt.isSome → j.made < b)

-- A job fails with as many attempts rejected as it may make, unless the tables lack something.
def Fails (r : DrawRequest) (bound : Option Nat) (f : Failure) : Prop :=
  f = .absent ∨ ∃ b, bound = some b ∧ f = .sampling (.attemptsExceeded b r.lower r.upper)

def Proper (r : DrawRequest) (j : Job) : Job ⊕ Except Failure Structure → Prop
  | .inl j'         => j'.bound = j.bound ∧ j'.Bounded
  | .inr (.ok _)    => True
  | .inr (.error f) => Fails r j.bound f

theorem follow_proper (h : ∀ b, j.bound = some b → j.made < b) (P : Progress Stream) : Proper r j (j.follow r P) := by
  have again (source : Stream) : Proper r j (.inl (j.again source)) :=
    ⟨rfl, fun b hb => ⟨h b hb, nofun⟩⟩
  cases P
  case running a         => exact ⟨rfl, fun b hb => ⟨(h b hb).le, fun _ => h b hb⟩⟩
  case exceeded source   => exact again source
  case stuck             => exact .inl rfl
  case done found a      =>
    rw [follow]
    split
    case isTrue  => trivial
    case isFalse => exact again a.source

theorem Bounded.step (h : j.Bounded) : Proper r j (j.step s r) := by
  rw [Job.step]
  split
  case isTrue out =>
    have ⟨_, b, hb, most⟩ := isOut_iff.mp out
    exact .inr ⟨b, hb, by rw [(h b hb).1.antisymm most]⟩
  case isFalse left =>
    split
    case isTrue  => exact ⟨rfl, h⟩
    case isFalse =>
      refine follow_proper (fun b hb => ?_) _
      cases ha : j.attempt
      case some   => exact (h b hb).2 (by rw [ha, Option.isSome_some])
      case none   => exact lt_of_not_ge fun most => left (isOut_iff.mpr ⟨ha, b, hb, most⟩)

theorem work_begun_inr {o : Except Failure Structure} : s.work r (.begun j) = .inr o ↔ j.step s r = .inr o := by
  rw [work]
  cases j.step s r <;> simp

theorem work_begun_inl {x : Task} : s.work r (.begun j) = .inl x ↔ ∃ j', x = .begun j' ∧ j.step s r = .inl j' := by
  rw [work]
  cases j.step s r <;> simp [eq_comm]

theorem Bounded.fails {n : Nat} {f : Failure} (h : j.Bounded) (ends : (s.work r).Ends (.begun j) n (.error f)) :
    Fails r j.bound f := by
  have proper := h.step (s := s) (r := r)
  induction n generalizing j
  case zero      => cases ends
  case succ n hi =>
    cases ends
    case last step       =>
      rw [work_begun_inr.mp step] at proper
      exact proper
    case more step later =>
      have ⟨j', hx, hs⟩ := work_begun_inl.mp step
      cases hx
      rw [hs] at proper
      have ⟨same, bounded⟩ := proper
      exact same ▸ hi bounded later bounded.step

end Job

namespace Sampler

open Job

variable {s : Sampler} {r : DrawRequest}

-- A job makes of an attempt what a request does, if that holds of the attempts after one that is rejected.
theorem settle_yields {j : Job} {x : Task} {k least : Nat} {P : Progress Stream}
    {others : Nat → Stream → Except Failure Structure × Stream} (follows : Follows s r j x k P) (long : least ≤ k)
    (again : ∀ n > 0, ∀ source, (s.work r).Reaches x n (.begun (j.again source)) →
      (s.work r).Yields x (others (j.made + 1) source).1 ∨ (s.work r).Lasts x least) :
    (s.work r).Yields x (settle r others j.made P).1 ∨ (s.work r).Lasts x least := by
  cases P
  case running => exact .inr (Machine.Lasts.mono follows long)
  case stuck =>
    have ⟨n, _, ends⟩ := follows
    exact .inl ⟨n, ends⟩
  case exceeded source =>
    have ⟨n, hn, reaches⟩ := follows
    exact again n hn source reaches
  case done found a =>
    have ⟨n, hn, comes⟩ := follows
    simp only [settle, follow] at comes ⊢
    split at comes
    case isTrue h =>
      rw [if_pos h]
      exact .inl ⟨n, comes⟩
    case isFalse h =>
      rw [if_neg h]
      exact again n hn a.source comes

-- A job ends in what the attempts that are left give, or one of them or all of them last.
theorem attempts_yields (T : String) {bound : Option Nat} {left made fuel : Nat} (source : Stream) (least : Nat)
    (all : bound.getD (made + left) = made + left) (each : least ≤ fuel) (many : bound = none → least ≤ left) :
    (s.work r).Yields (.begun ⟨T, bound, made, none, none, source⟩)
        (attemptsWithin fuel (.ofNumbers Stream.next) s r T left made source).1 ∨
      (s.work r).Lasts (.begun ⟨T, bound, made, none, none, source⟩) least := by
  induction left generalizing made source least
  case zero =>
    cases bound
    case none   => exact .inr ⟨0, many rfl, _, .here⟩
    case some b =>
      refine .inl (Machine.yields_of_end ?_)
      have out : isOut ⟨T, some b, made, none, none, source⟩ = true := isOut_iff.mpr ⟨rfl, b, rfl, all.le⟩
      exact work_begun_inr.mpr (step_out out)
  case succ left hi =>
    let j : Job := ⟨T, bound, made, none, none, source⟩
    have isLeft : j.isOut = false := by
      refine Bool.eq_false_iff.mpr fun out => ?_
      have ⟨_, b, hb, most⟩ := isOut_iff.mp out
      have : made + (left + 1) ≤ made := by
        rw [← all, show bound = some b from hb]
        exact most
      omega
    refine settle_yields (draw_follows isLeft rfl rfl fuel) (Nat.le_succ_of_le each) fun n hn source' reaches => ?_
    have all' : bound.getD (made + 1 + left) = made + 1 + left := by
      rwa [Nat.add_assoc, Nat.add_comm 1]
    have later := hi source' (least - 1) all' (by omega) fun h => by have := many h; omega
    exact later.imp reaches.yields fun lasts => (reaches.lasts lasts).mono (by omega)

theorem boundOf_error {e : Failure} (h : attemptsOf r = .error e) : boundOf r = .error e := by
  cases hm : r.maxAttempts
  case none   => simp only [attemptsOf, hm, reduceCtorEq] at h
  case some n => simp only [boundOf, hm, h, Except.map]

-- Without a bound, nobody waits for more attempts than can be waited for.
theorem boundOf_ok {left : Nat} (h : attemptsOf r = .ok left) :
    ∃ bound, boundOf r = .ok bound ∧ bound.getD left = left ∧ (bound = none → patience ≤ left) := by
  cases hm : r.maxAttempts
  case none =>
    simp only [attemptsOf, hm, Except.ok.injEq] at h
    exact ⟨none, by simp only [boundOf, hm], rfl, fun _ => h.le⟩
  case some n => exact ⟨some left, by simp only [boundOf, hm, h, Except.map], rfl, nofun⟩

theorem boundOf_some {n : Int} (h : r.maxAttempts = some n) :
    boundOf r = if n < 1 then .error (.request .maxAttempts) else .ok (some n.toNat) := by
  simp only [boundOf, attemptsOf, h]
  split <;> rfl

-- A job fails if it may make no attempt, or if it has made as many as it may, or if the tables lack something.
theorem asked_fails {T : String} {g : Generator} {f : Failure} (accepted : s.check r = .ok T)
    (fails : (s.work r).Yields (.asked g) (.error f)) : f = .absent ∨ ∃ n, r.maxAttempts = some n ∧
      f = if n < 1 then .request .maxAttempts else .sampling (.attemptsExceeded n.toNat r.lower r.upper) := by
  have begun {bound : Option Nat} (hb : boundOf r = .ok bound) : Fails r bound f := by
    have begins : s.work r (.asked g) = .inl (.begun ⟨T, bound, 0, none, none, Stream.start g⟩) := by
      simp only [work, accepted, hb]
    have ⟨_, later⟩ := (Machine.yields_of_step begins).mpr fails
    have fresh : Bounded ⟨T, bound, 0, none, none, Stream.start g⟩ := fun b _ => ⟨Nat.zero_le b, nofun⟩
    exact fresh.fails later
  cases hm : r.maxAttempts
  case none =>
    have hb : boundOf r = .ok none := by rw [boundOf, hm]
    exact (begun hb).imp_right fun ⟨b, same, _⟩ => (Option.some_ne_none b same.symm).elim
  case some n =>
    have hb := boundOf_some hm
    by_cases hn : n < 1
    case pos =>
      have ends : s.work r (.asked g) = .inr (.error (.request .maxAttempts)) := by
        simp only [work, accepted, hb, if_pos hn]
      have := Except.error.inj (fails.unique (Machine.yields_of_end ends))
      exact .inr ⟨n, rfl, by rw [if_pos hn, this]⟩
    case neg =>
      rw [if_neg hn] at hb
      refine (begun hb).imp_right fun ⟨b, same, he⟩ => ⟨n, rfl, ?_⟩
      cases same
      rw [if_neg hn, he]

-- A structure that a job ends in is that of an attempt, which is the first of its attempts or comes after a rejected one.
theorem exists_draw_of_ends {j : Job} {n : Nat} {found : Structure} (between : j.attempt = none) (fresh : j.number = none)
    (ends : (s.work r).Ends (.begun j) n (.ok found)) : ∃ source fuel a,
      Attempt.draw (.ofNumbers Stream.next) s s.order r.limit fuel source j.typeName = .done found a := by
  induction n using Nat.strong_induction_on generalizing j
  case h n hi =>
    cases left : j.isOut
    case true  => cases (ends.unique (.last (work_begun_inr.mpr (step_out left)))).2
    case false =>
      have follows := draw_follows (s := s) (r := r) left between fresh n
      have later {m : Nat} {source : Stream} (positive : 0 < m)
          (reaches : (s.work r).Reaches (.begun j) m (.begun (j.again source))) : ∃ source fuel a,
            Attempt.draw (.ofNumbers Stream.next) s s.order r.limit fuel source j.typeName = .done found a := by
        have ⟨k, he, rest⟩ := reaches.ends ends
        exact hi k (by omega) (j := j.again source) rfl rfl rest
      cases hd : Attempt.draw (.ofNumbers Stream.next) s s.order r.limit n j.source j.typeName <;> rw [hd] at follows
      case running =>
        have := Machine.Lasts.lt follows ends
        omega
      case stuck =>
        have ⟨_, _, comes⟩ := follows
        cases (ends.unique comes).2
      case exceeded source =>
        have ⟨_, positive, reaches⟩ := follows
        exact later positive reaches
      case done found' a =>
        have ⟨_, positive, comes⟩ := follows
        simp only [follow] at comes
        split at comes
        case isTrue  =>
          cases (ends.unique comes).2
          exact ⟨_, _, a, hd⟩
        case isFalse => exact later positive comes

theorem exists_draw_of_yields {g : Generator} {found : Structure} (yields : (s.work r).Yields (.asked g) (.ok found)) :
    ∃ T source fuel a, s.check r = .ok T ∧
      Attempt.draw (.ofNumbers Stream.next) s s.order r.limit fuel source T = .done found a := by
  have ⟨_, ends⟩ := yields
  cases ends
  case last step =>
    simp only [work] at step
    split at step <;> cases step
  case more step later =>
    simp only [work] at step
    split at step <;> cases step
    case h_3 T _ accepted _ =>
      have ⟨source, fuel, a, done⟩ := exists_draw_of_ends rfl rfl later
      exact ⟨T, source, fuel, a, accepted, done⟩

-- Drawing a structure at once gives what the job ends in.
theorem sample_yields (s : Sampler) (r : DrawRequest) (g : Generator) :
    (s.work r).Yields (.asked g) (s.sample r g).1 ∨ (s.work r).Lasts (.asked g) patience := by
  rw [sample]
  cases hc : s.check r
  case error e => exact .inl (Machine.yields_of_end (by simp only [work, hc]))
  case ok T =>
    cases hb : attemptsOf r
    case error e => exact .inl (Machine.yields_of_end (by simp only [work, hc, boundOf_error hb]))
    case ok left =>
      have ⟨bound, hbound, all, many⟩ := boundOf_ok hb
      have begins : s.work r (.asked g) = .inl (.begun ⟨T, bound, 0, none, none, Stream.start g⟩) := by
        simp only [work, hc, hbound]
      have reaches := Machine.Reaches.more begins .here
      have whole : bound.getD (0 + left) = 0 + left := by rwa [Nat.zero_add]
      have attempts := attempts_yields (s := s) (r := r) T (Stream.start g) patience whole (Nat.le_refl _) many
      simp only [attempts_eq]
      exact attempts.imp reaches.yields fun lasts => (reaches.lasts lasts).mono (Nat.le_add_left ..)

end Sampler

end BoltzmannSampling
