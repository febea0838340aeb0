import Mathlib
import BoltzmannSampling.Proofs.Correspondence

/-!
Jobs on a pool of workers. A job takes steps of its own until it ends with a result or a failure. The pool starts its
jobs in their order, a job for every worker that is free, and the jobs at work take their steps in any order. Who waits
for the pool is given the results in the order of the jobs, or the failure of the first job that has one; after a failure
the jobs that have not been started may be cancelled.

What the pool gives is what the jobs give one after another, in whatever order their steps come.
-/

namespace BoltzmannSampling

-- A job makes a step, or it ends.
abbrev Machine (σ ε β : Type) := σ → σ ⊕ Except ε β

namespace Machine

variable {σ ε β : Type} (M : Machine σ ε β)

-- A job that is left alone ends so, after so many steps.
inductive Ends : σ → Nat → Except ε β → Prop
  | last {x o} (step : M x = .inr o) : Ends x 1 o
  | more {x y n o} (step : M x = .inl y) (later : Ends y n o) : Ends x (n + 1) o

def Yields (x : σ) (o : Except ε β) : Prop := ∃ n, M.Ends x n o

-- A job that is left alone has come so far after so many steps.
inductive Reaches : σ → Nat → σ → Prop
  | here {x} : Reaches x 0 x
  | more {x y z n} (step : M x = .inl y) (later : Reaches y n z) : Reaches x (n + 1) z

def Lasts (x : σ) (n : Nat) : Prop := ∃ m ≥ n, ∃ y, M.Reaches x m y

def Comes (x : σ) (n : Nat) : σ ⊕ Except ε β → Prop
  | .inl y => M.Reaches x n y
  | .inr o => M.Ends x n o

-- Jobs one after another, until one fails.
inductive Serial : List σ → Except ε (List β) → Prop
  | done : Serial [] (.ok [])
  | fails {x xs e} (ends : M.Yields x (.error e)) : Serial (x :: xs) (.error e)
  | next {x xs b o} (ends : M.Yields x (.ok b)) (later : Serial xs o) : Serial (x :: xs) (o.map (b :: ·))

variable {M} {x y : σ} {z : σ ⊕ Except ε β} {xs ys : List σ} {m n : Nat} {o o' : Except ε β} {e : ε} {b : β} {bs : List β}
  {v v' : Except ε (List β)}

theorem Ends.unique (h : M.Ends x n o) (h' : M.Ends x m o') : n = m ∧ o = o' := by
  induction h generalizing m
  case last step =>
    cases h'
    case last step'   => exact ⟨rfl, Sum.inr.inj (step.symm.trans step')⟩
    case more step' _ => cases step.symm.trans step'
  case more step _ hi =>
    cases h'
    case last step'       => cases step.symm.trans step'
    case more step' later =>
      cases step.symm.trans step'
      have ⟨hn, ho⟩ := hi later
      exact ⟨congrArg _ hn, ho⟩

theorem Yields.unique (h : M.Yields x o) (h' : M.Yields x o') : o = o' :=
  have ⟨_, h⟩ := h
  have ⟨_, h'⟩ := h'
  (h.unique h').2

theorem yields_of_end (step : M x = .inr o) : M.Yields x o := ⟨1, .last step⟩

theorem yields_of_step (step : M x = .inl y) : M.Yields y o ↔ M.Yields x o := by
  constructor
  · intro ⟨n, h⟩
    exact ⟨n + 1, .more step h⟩
  · intro ⟨n, h⟩
    cases h
    case last step'       => cases step.symm.trans step'
    case more step' later =>
      cases step.symm.trans step'
      exact ⟨_, later⟩

theorem comes_once (M : Machine σ ε β) (x : σ) : M.Comes x 1 (M x) := by
  cases h : M x
  case inl => exact .more h .here
  case inr => exact .last h

theorem Reaches.comes (h : M.Reaches x m y) (later : M.Comes y n z) : M.Comes x (m + n) z := by
  induction h
  case here => rwa [Nat.zero_add]
  case more step _ hi =>
    rw [Nat.add_right_comm]
    cases z
    case inl => exact .more step (hi later)
    case inr => exact .more step (hi later)

theorem Reaches.yields (h : M.Reaches x m y) (later : M.Yields y o) : M.Yields x o :=
  have ⟨_, ends⟩ := later
  ⟨_, h.comes (z := .inr o) ends⟩

theorem Reaches.lasts (h : M.Reaches x m y) (later : M.Lasts y n) : M.Lasts x (m + n) :=
  have ⟨_, hn, z, reaches⟩ := later
  ⟨_, Nat.add_le_add_left hn m, z, h.comes (z := .inl z) reaches⟩

theorem Lasts.mono (h : M.Lasts x n) (hm : m ≤ n) : M.Lasts x m :=
  have ⟨k, hk, later⟩ := h
  ⟨k, hm.trans hk, later⟩

-- What a job ends in is what it ends in from where it has come to.
theorem Reaches.ends (h : M.Reaches x m y) (ends : M.Ends x n o) : ∃ k, n = m + k ∧ M.Ends y k o := by
  induction h generalizing n
  case here           => exact ⟨n, (Nat.zero_add n).symm, ends⟩
  case more step _ hi =>
    cases ends
    case last step'       => cases step.symm.trans step'
    case more step' later =>
      cases step.symm.trans step'
      have ⟨k, he, rest⟩ := hi later
      exact ⟨k, by omega, rest⟩

theorem Reaches.lt (h : M.Reaches x m y) (ends : M.Ends x n o) : m < n := by
  have ⟨_, _, rest⟩ := h.ends ends
  cases rest <;> omega

-- A job that has ended was at work no longer than that.
theorem Lasts.lt (h : M.Lasts x m) (ends : M.Ends x n o) : m < n :=
  have ⟨_, hm, _, reaches⟩ := h
  hm.trans_lt (reaches.lt ends)

theorem Serial.unique (h : M.Serial xs v) (h' : M.Serial xs v') : v = v' := by
  induction h generalizing v'
  case done =>
    cases h'
    rfl
  case fails ends =>
    cases h'
    case fails ends'  => exact congrArg _ (Except.error.inj (ends.unique ends'))
    case next ends' _ => cases ends.unique ends'
  case next ends _ hi =>
    cases h'
    case fails ends'      => cases ends.unique ends'
    case next ends' later => rw [Except.ok.inj (ends.unique ends'), hi later]

theorem serial_append (before : List.Forall₂ (fun x b => M.Yields x (.ok b)) xs bs) (h : M.Serial ys v) :
    M.Serial (xs ++ ys) (v.map (bs ++ ·)) := by
  induction before
  case nil => cases v <;> exact h
  case cons ends _ hi =>
    have := Serial.next ends hi
    cases v <;> exact this

theorem serial_ok : M.Serial xs (.ok bs) ↔ List.Forall₂ (fun x b => M.Yields x (.ok b)) xs bs := by
  constructor
  case mpr =>
    intro h
    have := serial_append h .done
    rwa [List.append_nil, Except.map, List.append_nil] at this
  case mp =>
    intro h
    induction xs generalizing bs
    case nil =>
      cases h
      exact .nil
    case cons x xs hi =>
      generalize hv : Except.ok bs = v at h
      cases h
      case fails            => cases hv
      case next o ends later =>
        cases o <;> cases hv
        exact .cons ends (hi later)

-- A failure is that of the first job that fails.
theorem serial_error : M.Serial xs (.error e) ↔ ∃ before x after bs, xs = before ++ x :: after ∧
    List.Forall₂ (fun x b => M.Yields x (.ok b)) before bs ∧ M.Yields x (.error e) := by
  constructor
  case mpr =>
    intro ⟨_, _, _, _, he, before, ends⟩
    exact he ▸ serial_append before (.fails ends)
  case mp =>
    intro h
    induction xs
    case nil => cases h
    case cons x xs hi =>
      generalize hv : Except.error e = v at h
      cases h
      case fails ends =>
        cases hv
        exact ⟨[], x, xs, [], rfl, .nil, ends⟩
      case next b o ends later =>
        cases o <;> cases hv
        have ⟨before, x', after, bs, he, hb, hx⟩ := hi later
        exact ⟨x :: before, x', after, b :: bs, he ▸ rfl, .cons ends hb, hx⟩

theorem serial_mapM {α : Type} {f : α → σ} {g : α → Except ε β} {as : List α} (h : ∀ a ∈ as, M.Yields (f a) (g a)) :
    M.Serial (as.map f) (as.mapM g) := by
  induction as
  case nil => exact .done
  case cons a as hi =>
    have ⟨first, later⟩ := List.forall_mem_cons.mp h
    rw [List.mapM_cons]
    cases hg : g a
    case error e => exact .fails (hg ▸ first)
    case ok b    =>
      have next := Serial.next (hg ▸ first) (hi later)
      cases hm : as.mapM g <;> exact hm ▸ next

end Machine

-- A job that has been started.
inductive Status (σ ε β : Type) where
  | working (x : σ)
  | ended (o : Except ε β)

-- The jobs that have been started and those that wait, in order, and what has been told of them.
structure Pool (σ ε β : Type) where
  begun : List (Status σ ε β)
  queue : List σ
  told : Option (Except ε (List β))

namespace Pool

variable {σ ε β : Type}

def start (xs : List σ) : Pool σ ε β := ⟨[], xs, none⟩

def isWorking : Status σ ε β → Bool
  | .working _ => true
  | .ended _   => false

def busy (begun : List (Status σ ε β)) : Nat := begun.countP isWorking

def results (bs : List β) : List (Status σ ε β) := bs.map fun b => .ended (.ok b)

inductive Step (M : Machine σ ε β) (workers : Nat) : Pool σ ε β → Pool σ ε β → Prop
  | begin {begun x queue told} (free : busy begun < workers) :
    Step M workers ⟨begun, x :: queue, told⟩ ⟨begun ++ [.working x], queue, told⟩
  | advance {before x y after queue told} (step : M x = .inl y) :
    Step M workers ⟨before ++ .working x :: after, queue, told⟩ ⟨before ++ .working y :: after, queue, told⟩
  | finish {before x o after queue told} (step : M x = .inr o) :
    Step M workers ⟨before ++ .working x :: after, queue, told⟩ ⟨before ++ .ended o :: after, queue, told⟩
  | fail {bs e after queue} :
    Step M workers ⟨results bs ++ .ended (.error e) :: after, queue, none⟩
      ⟨results bs ++ .ended (.error e) :: after, queue, some (.error e)⟩
  | succeed {bs} : Step M workers ⟨results bs, [], none⟩ ⟨results bs, [], some (.ok bs)⟩
  | cancel {begun before x after e} :
    Step M workers ⟨begun, before ++ x :: after, some (.error e)⟩ ⟨begun, before ++ after, some (.error e)⟩

-- Nobody works or waits to, and the outcome has been told.
structure Returned (p : Pool σ ε β) (v : Except ε (List β)) : Prop where
  told  : p.told = some v
  queue : p.queue = []
  idle  : busy p.begun = 0

abbrev Steps (M : Machine σ ε β) (workers : Nat) : Pool σ ε β → Pool σ ε β → Prop :=
  Relation.ReflTransGen (Step M workers)

variable {M : Machine σ ε β} {workers : Nat} {p q : Pool σ ε β} {xs ys : List σ} {x : σ} {st st' : Status σ ε β}
  {begun before after : List (Status σ ε β)} {v : Except ε (List β)} {bs : List β}

-- What a job has come to agrees with what it ends in.
def Traces (M : Machine σ ε β) (x : σ) : Status σ ε β → Prop
  | .working y => ∀ o, M.Yields y o ↔ M.Yields x o
  | .ended o   => M.Yields x o

-- Until the outcome is told the jobs started are those that do not wait, and each has come to what it comes to alone.
structure Sound (M : Machine σ ε β) (xs : List σ) (p : Pool σ ε β) : Prop where
  traces : p.told = none → ∃ ys, xs = ys ++ p.queue ∧ List.Forall₂ (Traces M) ys p.begun
  serial : ∀ v, p.told = some v → M.Serial xs v

theorem sound_start (M : Machine σ ε β) (xs : List σ) : Sound M xs (start xs) :=
  ⟨fun _ => ⟨[], rfl, .nil⟩, nofun⟩

theorem traces_replace (h : List.Forall₂ (Traces M) ys (before ++ st :: after)) (same : ∀ x, Traces M x st → Traces M x st') :
    List.Forall₂ (Traces M) ys (before ++ st' :: after) := by
  have ⟨ys₁, ys₂, he, h₁, h₂⟩ := List.Forall₂.append_left h.flip
  cases h₂
  case cons x zs hx hs => exact he ▸ List.rel_append h₁.flip (.cons (same x hx) hs.flip)

theorem traces_results (h : List.Forall₂ (Traces M) ys (results bs)) :
    List.Forall₂ (fun x b => M.Yields x (.ok b)) ys bs :=
  (List.forall₂_map_right_iff (R := Traces M)).mp h

theorem Sound.step (h : Sound M xs p) (step : Step M workers p q) : Sound M xs q := by
  cases step
  case begin x _ told _ =>
    refine ⟨fun hn => ?_, h.serial⟩
    have ⟨ys, he, ht⟩ := h.traces hn
    exact ⟨ys ++ [x], by rw [he, List.append_assoc]; rfl, List.rel_append ht (.cons (fun _ => .rfl) .nil)⟩
  case advance step =>
    refine ⟨fun hn => ?_, h.serial⟩
    have ⟨ys, he, ht⟩ := h.traces hn
    exact ⟨ys, he, traces_replace ht fun x hx o => (Machine.yields_of_step step).trans (hx o)⟩
  case finish step =>
    refine ⟨fun hn => ?_, h.serial⟩
    have ⟨ys, he, ht⟩ := h.traces hn
    exact ⟨ys, he, traces_replace ht fun x hx => (hx _).mp (Machine.yields_of_end step)⟩
  case fail bs e after queue =>
    refine ⟨nofun, fun v hv => ?_⟩
    cases hv
    have ⟨ys, he, ht⟩ := h.traces rfl
    have ⟨ys₁, ys₂, hy, h₁, h₂⟩ := List.Forall₂.append_left ht.flip
    cases h₂
    case cons x zs hx hs =>
      refine Machine.serial_error.mpr ⟨ys₁, x, zs ++ queue, bs, ?_, traces_results h₁.flip, hx⟩
      rw [he, hy, List.append_assoc]
      rfl
  case succeed bs =>
    refine ⟨nofun, fun v hv => ?_⟩
    cases hv
    have ⟨ys, he, ht⟩ := h.traces rfl
    rw [he, List.append_nil]
    exact Machine.serial_ok.mpr (traces_results ht)
  case cancel => exact ⟨nofun, h.serial⟩

theorem Sound.steps (h : Sound M xs p) (steps : Steps M workers p q) : Sound M xs q := by
  induction steps
  case refl         => exact h
  case tail step hi => exact hi.step step

-- The steps of a job that others have no part in.
theorem steps_working {n : Nat} {o : Except _ _} (ends : M.Ends x n o) (queue : List σ) (told : Option (Except ε (List β))) :
    Steps M workers ⟨before ++ .working x :: after, queue, told⟩ ⟨before ++ .ended o :: after, queue, told⟩ := by
  induction ends
  case last step      => exact .single (.finish step)
  case more step _ hi => exact .head (.advance step) hi

theorem busy_results (bs : List β) : busy (results bs : List (Status σ ε β)) = 0 := by
  rw [busy, List.countP_eq_zero]
  intro st hst
  have ⟨b, _, he⟩ := List.mem_map.mp hst
  rw [← he]
  exact Bool.false_ne_true

theorem steps_first (staffed : 0 < workers) {o : Except ε β} (ends : M.Yields x o) (bs : List β) (queue : List σ) :
    Steps M workers ⟨results bs, x :: queue, none⟩ ⟨results bs ++ [.ended o], queue, none⟩ := by
  have ⟨n, ends⟩ := ends
  have free : busy (results bs : List (Status σ ε β)) < workers := busy_results bs ▸ staffed
  exact .head (.begin free) (steps_working ends ..)

-- If the jobs before have results, the next one can be brought to its end.
theorem steps_front (staffed : 0 < workers) {queue : List σ} {o : Except ε β}
    (traces : List.Forall₂ (Traces M) ys begun) (jobs : ys ++ queue = x :: xs) (ends : M.Yields x o) (bs : List β) :
    ∃ begun' queue' ys', ys' ++ queue' = xs ∧ List.Forall₂ (Traces M) ys' begun' ∧
      Steps M workers ⟨results bs ++ begun, queue, none⟩ ⟨results bs ++ .ended o :: begun', queue', none⟩ := by
  cases traces
  case nil =>
    cases jobs
    rw [List.append_nil]
    exact ⟨[], xs, [], rfl, .nil, steps_first staffed ends bs xs⟩
  case cons st ys begun trace traces =>
    cases jobs
    refine ⟨begun, queue, ys, rfl, traces, ?_⟩
    cases st
    case working y =>
      have ⟨n, ends⟩ := (trace o).mpr ends
      exact steps_working ends ..
    case ended o' =>
      rw [ends.unique trace]

theorem results_append (bs : List β) (b : β) (begun : List (Status σ ε β)) :
    results (bs ++ [b]) ++ begun = results bs ++ .ended (.ok b) :: begun := by
  simp [results]

theorem map_append (bs : List β) (b : β) (v : Except ε (List β)) :
    v.map (bs ++ [b] ++ ·) = (v.map (b :: ·)).map (bs ++ ·) := by
  cases v <;> simp [Except.map]

-- As long as nothing is told, what the jobs give one after another can still be told.
theorem tells (staffed : 0 < workers) {queue : List σ} (serial : M.Serial xs v)
    (traces : List.Forall₂ (Traces M) ys begun) (jobs : ys ++ queue = xs) (bs : List β) :
    ∃ q, Steps M workers ⟨results bs ++ begun, queue, none⟩ q ∧ q.told = some (v.map (bs ++ ·)) := by
  induction serial generalizing ys queue begun bs
  case done =>
    have ⟨hy, hq⟩ := List.append_eq_nil_iff.mp jobs
    cases hy
    cases hq
    cases traces
    rw [List.append_nil]
    exact ⟨_, .single .succeed, by rw [Except.map, List.append_nil]⟩
  case fails ends =>
    have ⟨begun', queue', _, _, _, steps⟩ := steps_front staffed traces jobs ends bs
    exact ⟨_, steps.tail .fail, rfl⟩
  case next b o ends _ hi =>
    have ⟨begun', queue', ys', jobs', traces', steps⟩ := steps_front staffed traces jobs ends bs
    have ⟨q, later, told⟩ := hi traces' jobs' (bs ++ [b])
    exact ⟨q, steps.trans (results_append .. ▸ later), told.trans (congrArg some (map_append bs b o))⟩

theorem Sound.tells (staffed : 0 < workers) (h : Sound M xs p) (serial : M.Serial xs v) :
    ∃ q, Steps M workers p q ∧ q.told = some v := by
  cases ht : p.told
  case some v' => exact ⟨p, .refl, ht.trans (congrArg some ((h.serial v' ht).unique serial))⟩
  case none =>
    have ⟨ys, jobs, traces⟩ := h.traces ht
    have ⟨q, steps, told⟩ := Pool.tells staffed serial traces jobs.symm []
    have here : p = ⟨results [] ++ p.begun, p.queue, none⟩ := by
      rw [← ht]
      rfl
    refine ⟨q, here ▸ steps, told.trans ?_⟩
    cases v <;> rfl

theorem steps_cancel (begun : List (Status σ ε β)) (queue : List σ) (e : ε) :
    Steps M workers ⟨begun, queue, some (.error e)⟩ ⟨begun, [], some (.error e)⟩ := by
  induction queue
  case nil              => exact .refl
  case cons x queue hi =>
    have first : Step M workers ⟨begun, [] ++ x :: queue, some (.error e)⟩ ⟨begun, [] ++ queue, _⟩ := .cancel
    exact .head first hi

-- If a job is started when the one before has ended, the pool returns what the jobs give one after another.
theorem serves (staffed : 0 < workers) (serial : M.Serial xs v) (bs : List β) :
    ∃ q, Steps M workers ⟨results bs, xs, none⟩ q ∧ Returned q (v.map (bs ++ ·)) := by
  induction serial generalizing bs
  case done => exact ⟨_, .single .succeed, by rw [Except.map, List.append_nil], rfl, busy_results bs⟩
  case fails x xs e ends =>
    have steps := (steps_first staffed ends bs xs).tail .fail
    refine ⟨_, steps.trans (steps_cancel ..), rfl, rfl, ?_⟩
    rw [busy, List.countP_append]
    exact busy_results bs
  case next x xs b o ends _ hi =>
    have ⟨q, later, returned⟩ := hi (bs ++ [b])
    have grown := results_append (σ := σ) (ε := ε) bs b []
    rw [List.append_nil] at grown
    exact ⟨q, (steps_first staffed ends bs xs).trans (grown ▸ later), map_append bs b o ▸ returned⟩

theorem returned_iff (staffed : 0 < workers) :
    (∃ q, Steps M workers (start xs) q ∧ Returned q v) ↔ M.Serial xs v := by
  constructor
  · intro ⟨q, steps, returned⟩
    exact ((sound_start M xs).steps steps).serial v returned.told
  · intro serial
    have ⟨q, steps, returned⟩ := serves staffed serial []
    exact ⟨q, steps, by cases v <;> exact returned⟩

theorem ended_cases (h : busy begun = 0) :
    (∃ bs, begun = results bs) ∨ ∃ bs e after, begun = results bs ++ .ended (.error e) :: after := by
  induction begun
  case nil => exact .inl ⟨[], rfl⟩
  case cons st begun hi =>
    have ⟨idle, rest⟩ : isWorking st = false ∧ busy begun = 0 := by simpa [busy] using h
    cases st
    case working => cases idle
    case ended o =>
      cases o
      case error e => exact .inr ⟨[], e, begun, rfl⟩
      case ok b    =>
        rcases hi rest with ⟨bs, he⟩ | ⟨bs, e, after, he⟩
        · exact .inl ⟨b :: bs, he ▸ rfl⟩
        · exact .inr ⟨b :: bs, e, after, he ▸ rfl⟩

-- A pool that makes no step has returned.
theorem Sound.returned (staffed : 0 < workers) (h : Sound M xs p) (still : ∀ q, ¬Step M workers p q) :
    ∃ v, Returned p v ∧ M.Serial xs v := by
  obtain ⟨begun, queue, told⟩ := p
  have idle : busy begun = 0 := by
    rw [busy, List.countP_eq_zero]
    intro st hst hw
    cases st
    case ended     => cases hw
    case working x =>
      have ⟨before, after, he⟩ := List.append_of_mem hst
      cases he
      cases hx : M x
      case inl y => exact still _ (.advance hx)
      case inr o => exact still _ (.finish hx)
  have empty : queue = [] := by
    cases queue
    case nil  => rfl
    case cons => exact (still _ (.begin (idle ▸ staffed))).elim
  cases empty
  cases told
  case some v => exact ⟨v, ⟨rfl, rfl, idle⟩, h.serial v rfl⟩
  case none   =>
    rcases ended_cases idle with ⟨bs, he⟩ | ⟨bs, e, after, he⟩ <;> cases he
    · exact (still _ .succeed).elim
    · exact (still _ .fail).elim

inductive Takes (M : Machine σ ε β) : Status σ ε β → Nat → Prop
  | working {x n o} (ends : M.Ends x n o) : Takes M (.working x) n
  | ended {o} : Takes M (.ended o) 0

-- The steps that jobs which end still take, and the telling.
def Outstanding (M : Machine σ ε β) (p : Pool σ ε β) (n : Nat) : Prop :=
  ∃ ks ls, List.Forall₂ (Takes M) p.begun ks ∧ List.Forall₂ (fun x l => ∃ o, M.Ends x l o) p.queue ls ∧
    n = ks.sum + (ls.map (· + 1)).sum + if p.told.isSome then 0 else 1

theorem outstanding_start (h : ∀ x ∈ xs, ∃ o, M.Yields x o) : ∃ n, Outstanding M (start xs) n := by
  have ⟨ls, hl⟩ := List.Forall₂.of_exists (R := fun x l => ∃ o, M.Ends x l o) fun x hx =>
    have ⟨o, n, ends⟩ := h x hx
    ⟨n, o, ends⟩
  exact ⟨_, [], ls, .nil, hl, rfl⟩

theorem takes_replace {ks : List Nat} (h : List.Forall₂ (Takes M) (before ++ st :: after) ks)
    (less : ∀ k, Takes M st k → ∃ l < k, Takes M st' l) :
    ∃ ls, List.Forall₂ (Takes M) (before ++ st' :: after) ls ∧ ls.sum < ks.sum := by
  have ⟨ks₁, ks₂, he, h₁, h₂⟩ := h.append_left
  cases he
  cases h₂
  case cons k ks₂ takes h₂ =>
    have ⟨l, hl, takes'⟩ := less k takes
    refine ⟨ks₁ ++ l :: ks₂, List.rel_append h₁ (.cons takes' h₂), ?_⟩
    simp only [List.sum_append, List.sum_cons]
    omega

theorem Takes.advance {k : Nat} {y : σ} (h : Takes M (.working x) k) (step : M x = .inl y) :
    ∃ l < k, Takes M (.working y) l := by
  cases h
  case working ends =>
    cases ends
    case last step'       => cases step.symm.trans step'
    case more step' later =>
      cases step.symm.trans step'
      exact ⟨_, Nat.lt_succ_self _, .working later⟩

theorem Takes.finish {k : Nat} (h : Takes M (.working x) k) (o : Except ε β) : ∃ l < k, Takes M (.ended o) l := by
  cases h
  case working ends => cases ends <;> exact ⟨0, Nat.succ_pos _, .ended⟩

-- A step leaves fewer steps to come.
theorem Outstanding.step {n : Nat} (h : Outstanding M p n) (step : Step M workers p q) :
    ∃ m < n, Outstanding M q m := by
  obtain ⟨ks, ls, hk, hl, rfl⟩ := h
  cases step
  case begin =>
    cases hl
    case cons l ls ends hl =>
      have ⟨o, ends⟩ := ends
      refine ⟨_, ?_, ks ++ [l], ls, List.rel_append hk (.cons (.working ends) .nil), hl, rfl⟩
      simp only [List.map_cons, List.sum_append, List.sum_cons, List.sum_nil]
      omega
  case advance step =>
    have ⟨ks', hk', less⟩ := takes_replace hk fun k takes => takes.advance step
    exact ⟨_, Nat.add_lt_add_right (Nat.add_lt_add_right less _) _, ks', ls, hk', hl, rfl⟩
  case finish o _ _ _ step =>
    have ⟨ks', hk', less⟩ := takes_replace hk fun k takes => takes.finish o
    exact ⟨_, Nat.add_lt_add_right (Nat.add_lt_add_right less _) _, ks', ls, hk', hl, rfl⟩
  case fail    => exact ⟨_, Nat.lt_succ_self _, ks, ls, hk, hl, rfl⟩
  case succeed => exact ⟨_, Nat.lt_succ_self _, ks, ls, hk, hl, rfl⟩
  case cancel  =>
    have ⟨ls₁, ls₂, he, h₁, h₂⟩ := hl.append_left
    cases he
    cases h₂
    case cons l ls₂ _ h₂ =>
      refine ⟨_, ?_, ks, ls₁ ++ ls₂, hk, List.rel_append h₁ h₂, rfl⟩
      simp only [List.map_append, List.sum_append, List.map_cons, List.sum_cons]
      omega

theorem Outstanding.steps {n : Nat} (h : Outstanding M p n) (steps : Steps M workers p q) : ∃ m, Outstanding M q m := by
  induction steps
  case refl => exact ⟨n, h⟩
  case tail step hi =>
    have ⟨_, h⟩ := hi
    have ⟨m, _, h⟩ := h.step step
    exact ⟨m, h⟩

-- Pools that follow one another are no more than the steps that are outstanding.
theorem Outstanding.bounded {n : Nat} (h : Outstanding M p n) {ps : List (Pool σ ε β)}
    (run : List.IsChain (Step M workers) (p :: ps)) : ps.length ≤ n := by
  induction ps generalizing p n
  case nil => exact Nat.zero_le n
  case cons q ps hi =>
    have ⟨step, later⟩ := List.isChain_cons_cons.mp run
    have ⟨m, less, rest⟩ := h.step step
    exact Nat.succ_le_of_lt ((hi rest later).trans_lt less)

-- What holds of a pool, whatever its workers have done so far: it has told nothing but what the jobs give one after
-- another, it can still tell that, it has returned it if nothing is left to do, and there is an end to what is left if
-- every job ends. A job without an end keeps the pool from returning, but not from telling the failure of one before it.
structure Reliable (M : Machine σ ε β) (workers : Nat) (xs : List σ) (p : Pool σ ε β) : Prop where
  tells    : ∀ v, p.told = some v → M.Serial xs v
  willTell : ∀ v, M.Serial xs v → ∃ q, Steps M workers p q ∧ q.told = some v
  returns  : (∀ q, ¬Step M workers p q) → ∃ v, Returned p v ∧ M.Serial xs v
  ends     : (∀ x ∈ xs, ∃ o, M.Yields x o) → ∃ n, ∀ ps, List.IsChain (Step M workers) (p :: ps) → ps.length ≤ n

theorem reliable (staffed : 0 < workers) (steps : Steps M workers (start xs) p) : Reliable M workers xs p :=
  have sound := (sound_start M xs).steps steps
  { tells    := sound.serial
    willTell := fun _ serial => sound.tells staffed serial
    returns  := fun still => sound.returned staffed still
    ends     := fun ends =>
      have ⟨_, all⟩ := outstanding_start ends
      have ⟨n, left⟩ := all.steps steps
      ⟨n, fun _ run => left.bounded run⟩ }

end Pool

end BoltzmannSampling
