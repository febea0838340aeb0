import Mathlib
import BoltzmannSampling.Proofs.Sampler.Advance
import BoltzmannSampling.Proofs.Sampler.Picks
import BoltzmannSampling.Proofs.Sampler.Steps

/-!
What every step of an attempt keeps. The nodes under construction from the innermost up to any other can be completed
within the limit in a bounded number of steps only, since they are then a derivation of a bounded size, and no node has
more to do before it grows than its constructor gives it. No step lacks anything, as long as the numbers are below one.
-/

namespace BoltzmannSampling

namespace Regime

open Attempt

-- With some decisions, the nodes from the innermost up to another one come out with so many atoms, in so many steps;
-- the same for a node of a type that is begun on top of them.
def Remaining (R : Regime) (p : Site) (above : List Site) (n k : Nat) : Prop :=
  ∃ ds ds' w, Completes .script R.tuned R.order p.frame p.run p.refs above ds ds' n k w

def Opening (R : Regime) (T : String) (above : List Site) (n k : Nat) : Prop :=
  ∃ ds ds' w, Begins .script R.tuned R.order T above ds ds' n k w

namespace Remaining

variable {R : Regime} {f : Frame} {r : Run} {run refs : List String} {above : List Site} {n k : Nat}

theorem more (h : R.Remaining ⟨{ f with run := some { r with count := r.count + 1 } }, run, refs⟩ above n k)
    (resolved : R.tuned.system.Resolved) (valid : f.Valid R.tuned R.order run refs) (hr : f.run = some r) :
    R.Remaining ⟨f, run, refs⟩ above (r.element.atomSize + n) (k + 1) :=
  have ⟨ds, ds', w, done⟩ := h
  ⟨.again true :: ds, ds', w, (Completes.draw resolved valid hr).mpr (.inl ⟨ds, rfl, n, k, rfl, rfl, done⟩)⟩

theorem endRun (h : R.Remaining ⟨f.endRun r, [], refs⟩ above n k)
    (resolved : R.tuned.system.Resolved) (valid : f.Valid R.tuned R.order run refs) (hr : f.run = some r) :
    R.Remaining ⟨f, run, refs⟩ above n (k + 1) :=
  have ⟨ds, ds', w, done⟩ := h
  ⟨.again false :: ds, ds', w, (Completes.draw resolved valid hr).mpr (.inr ⟨ds, rfl, k, rfl, done⟩)⟩

theorem look {slot : Slot} {slots : List Slot} {ref : String}
    (h : R.Remaining ⟨f.take R.order slot slots, Frame.Valid.opened ref slot, refs⟩ above n k)
    (resolved : R.tuned.system.Resolved) (valid : f.Valid R.tuned R.order [] (ref :: refs)) (hr : f.run = none)
    (hs : f.slots = slot :: slots) (hc : R.order = .inPlace → f.calls = []) :
    R.Remaining ⟨f, [], ref :: refs⟩ above n (k + 1) :=
  have ⟨ds, ds', w, done⟩ := h
  ⟨ds, ds', w, (Completes.look resolved valid hr hs hc).mpr ⟨k, rfl, done⟩⟩

theorem finish {q : Site} (h : R.Remaining ⟨q.frame.receive f.close, q.run, q.refs⟩ above n k)
    (hr : f.run = none) (hc : f.calls = []) (hh : f.hole.waits = []) :
    R.Remaining ⟨f, [], []⟩ (q :: above) n (k + 1) := by
  have ⟨ds, ds', w, done⟩ := h
  have ⟨ts, below, follows⟩ := Completes.receive.mp done
  exact ⟨ds, ds', w, (Completes.finish hr hc hh).mpr ⟨k, rfl, ts, Below.of_unmarked.mpr below, follows⟩⟩

theorem begin {u : TypeDef} {c : Constructor Symbol} {mark : Nat}
    (h : R.Remaining ⟨frame mark u.name (R.tuned.plan u c), [], c.refs⟩ above n k)
    (resolved : R.tuned.system.Resolved) (hu : u ∈ R.tuned.system.userTypes) (hc : c ∈ u.constructors) :
    R.Opening u.name above (c.size + n) (k + 1) := by
  have ⟨ds, ds', w, done⟩ := h
  have pick : Decider.script.Follows (R.tuned.pick u c) _ ds := Decider.script_follows.mpr rfl
  exact ⟨_, ds', w, (begins_iff resolved hu mark).mpr ⟨c, hc, ds, pick, n, k, rfl, rfl, done⟩⟩

end Remaining

namespace Opening

variable {R : Regime} {f : Frame} {refs calls : List String} {above : List Site} {n k : Nat} {T : String}

theorem call (h : R.Opening T (⟨{ f with calls }, [], refs⟩ :: above) n k)
    (valid : f.Valid R.tuned R.order [] refs) (hr : f.run = none) (hc : f.calls = T :: calls)
    (ho : R.order = .ahead → f.slots = []) : R.Remaining ⟨f, [], refs⟩ above n k :=
  have ⟨ds, ds', w, done⟩ := h
  ⟨ds, ds', w, (Completes.call valid hr hc ho).mpr done⟩

theorem «continue» (h : R.Opening T (⟨{ f with hole := .filling }, [], refs⟩ :: above) n k)
    (valid : f.Valid R.tuned R.order [] refs) (idle : f.Idle) (hh : f.hole = .waiting T) :
    R.Remaining ⟨f, [], refs⟩ above n k :=
  have ⟨ds, ds', w, done⟩ := h
  ⟨ds, ds', w, (Completes.continue valid idle hh).mpr done⟩

end Opening

-- What is assumed of a regime: the size is limited, every type has a constructor, there are numbers, and they are
-- below one. Then it can be bounded in how many steps a derivation within the limit is drawn, how many arguments a
-- constructor has, and how long a reference keeps waiting.
structure Bounded (R : Regime) (upper longest widest wait : Nat) : Prop where
  resolved  : R.tuned.system.Resolved
  limit     : R.limit = some upper
  inhabited : ∀ t ∈ R.tuned.system.types, t.constructors ≠ []
  elements  : ∀ m T, .auxiliary m (.ref T) ∈ R.tuned.system.types → T ∉ R.nullable
  numbers   : R.pool.Nonempty
  below     : ∀ u ∈ R.pool, ¬(1 : Float) ≤ u
  longest   : ∀ T, ∀ d ∈ R.tuned.system.derivations T, d.size ≤ upper → d.steps ≤ longest
  widest    : ∀ t ∈ R.tuned.system.types, ∀ c ∈ t.constructors, 2 * c.refs.length ≤ widest
  answers   : ∀ T ∈ R.tuned.system.names, R.Answers wait T

-- What every step keeps, of an attempt with these nodes under construction.
structure Steady (R : Regime) (upper longest widest : Nat) (a : Attempt Unit) (p : Site) (others : List Site) :
    Prop where
  consists : Consists R.tuned R.order a p others
  within   : a.size ≤ upper
  bounded  : ∀ above, above <+: others → ∀ n k, R.Remaining p above n k → a.size + n ≤ upper → k ≤ longest
  few      : ∀ q ∈ p :: others, R.tasks q.frame ≤ widest

def Keeps (R : Regime) (upper longest widest : Nat) : Progress Unit → Prop
  | .running a => ∃ p others, R.Steady upper longest widest a p others
  | .stuck _   => False
  | _          => True

variable {R : Regime} {upper longest widest wait size nodes : Nat} {u : Float} {a : Attempt Unit} {p : Site}
variable {others : List Site}

theorem Bounded.isOver (h : R.Bounded upper longest widest wait) : isOver R.limit size = false ↔ size ≤ upper := by
  simp [Attempt.isOver, h.limit]

-- A step that begins a node of a type.
theorem Bounded.enter (h : R.Bounded upper longest widest wait) (others : List Site) (hu : u ∈ R.pool) {t : TypeDef}
    (ht : t ∈ R.tuned.system.userTypes) (valid : ∀ q ∈ others, q.Valid R.tuned R.order)
    (few : ∀ q ∈ others, R.tasks q.frame ≤ widest)
    (bounded : ∀ above, above <+: others → ∀ n k, R.Opening t.name above n k → size + n ≤ upper → k ≤ longest) :
    R.Keeps upper longest widest (R.enter u ⟨(), size, nodes, others.map Site.frame⟩ t.name) := by
  have hm := (List.mem_filter.mp ht).1
  have ⟨c, hc, plan⟩ := R.tuned.exists_plan h.resolved hm (h.inhabited t hm) (h.below u hu)
  have weight : (R.tuned.plan t c).weight = c.size := rfl
  simp only [Regime.enter, Attempt.enter, R.tuned.dispatch?_eq h.resolved hm, plan, start, weight]
  split
  case isTrue    => trivial
  case isFalse hw =>
    have within : size + c.size ≤ upper := h.isOver.mp (by simpa using hw)
    refine ⟨⟨frame nodes t.name (R.tuned.plan t c), [], c.refs⟩, others, ⟨rfl, .frame h.resolved hm hc _, valid⟩,
      within, ?_, ?_⟩
    · intro above ha n k remaining hn
      exact Nat.le_of_succ_le <| bounded above ha _ _ (remaining.begin h.resolved ht hc) (Nat.add_assoc .. ▸ hn)
    · refine List.forall_mem_cons.mpr ⟨?_, few⟩
      have tasks : R.tasks (frame nodes t.name (R.tuned.plan t c)) = 2 * c.refs.length := by
        simp [Regime.tasks, frame, Hole.waits, (R.tuned.plan_slots h.resolved hm hc).length_eq]
      exact tasks ▸ h.widest t hm c hc

theorem Bounded.enters (h : R.Bounded upper longest widest wait) {T : String}
    (user : ∃ u ∈ R.tuned.system.userTypes, u.name = T) : R.Enters wait T :=
  have ⟨_, hu, hn⟩ := user
  (h.answers T (hn ▸ Specification.name_mem_names (List.mem_filter.mp hu).1)).enters user

theorem Bounded.takes (h : R.Bounded upper longest widest wait) {r : String} {slot : Slot}
    (stands : R.tuned.StandsFor r slot) : R.Takes wait slot := by
  have known : r ∈ R.tuned.system.names := by
    cases slot
    case child =>
      have ⟨_, _, hu, hn⟩ := stands
      exact hn ▸ Specification.name_mem_names (List.mem_filter.mp hu).1
    case run =>
      have ⟨_, _, hn, haux⟩ := stands
      exact hn ▸ Specification.name_mem_names haux
  exact (h.answers r known).takes stands h.elements

theorem Bounded.ready (h : R.Bounded upper longest widest wait) {f : Frame} {run refs : List String}
    (valid : f.Valid R.tuned R.order run refs) : R.Ready wait f where
  due T hT := by
    apply h.enters
    cases List.mem_append.mp hT
    case inl hT => exact valid.calls T hT
    case inr hT =>
      have stands := valid.run
      cases hr : f.run <;> simp only [hr] at stands hT
      case none   => simp at hT
      case some r =>
        obtain ⟨_, _, _, m, _, haux⟩ := stands.exists_left List.mem_cons_self
        cases he : r.element
        case atom  => simp [Run.elements, he, Element.type?] at hT
        case ref U =>
          have hT : T = U := by simp_all [Run.elements, Element.type?]
          exact hT ▸ h.resolved.element m U (he ▸ haux)
  waits T hT := by
    apply h.enters
    cases hh : f.hole <;> simp [hh, Hole.waits] at hT
    case waiting U => exact hT ▸ (valid.waiting U hh).1
  slots slot hs := by
    obtain ⟨_, _, stands⟩ := valid.slots.exists_left hs
    exact h.takes stands
  run r hr := by
    have stands := valid.run
    rw [hr] at stands
    obtain ⟨_, _, stands⟩ := stands.exists_left List.mem_cons_self
    exact h.takes stands
  single := valid.single
  held ho hw := by
    cases hh : f.hole <;> simp [hh, Hole.waits] at hw
    case waiting U => exact (valid.waiting U hh).2 ho

-- A step that replaces the node on top and counts so many atoms.
theorem Steady.replace (h : R.Steady upper longest widest a p others) {q : Site} (nodes atoms : Nat)
    (valid : q.frame.Valid R.tuned R.order q.run q.refs) (fewer : R.tasks q.frame ≤ R.tasks p.frame)
    (within : a.size + atoms ≤ upper)
    (remaining : ∀ above n k, R.Remaining q above n k → R.Remaining p above (atoms + n) (k + 1)) :
    R.Steady upper longest widest ⟨(), a.size + atoms, nodes, q.frame :: others.map Site.frame⟩ q others where
  consists := ⟨rfl, valid, h.consists.below⟩
  within   := within
  bounded above ha n k hr hn :=
    Nat.le_of_succ_le <| h.bounded above ha _ _ (remaining above n k hr) (Nat.add_assoc .. ▸ hn)
  few :=
    have ⟨top, below⟩ := List.forall_mem_cons.mp h.few
    List.forall_mem_cons.mpr ⟨fewer.trans top, below⟩

theorem Bounded.opening_le (h : R.Bounded upper longest widest wait) {T : String} {n k : Nat}
    (opening : R.Opening T [] n k) (hn : n ≤ upper) : k ≤ longest := by
  have ⟨_, _, _, begun⟩ := opening
  have ⟨d, hd, _, size, steps, _⟩ := begins_nil.mp begun
  exact steps ▸ h.longest T d hd (size ▸ hn)

-- A step that begins a node for the one on top.
theorem Steady.enter (steady : R.Steady upper longest widest a p others) (h : R.Bounded upper longest widest wait)
    (hu : u ∈ R.pool) {t : TypeDef} (ht : t ∈ R.tuned.system.userTypes) {q : Site} (valid : q.Valid R.tuned R.order)
    (fewer : R.tasks q.frame ≤ R.tasks p.frame)
    (remaining : ∀ above n k, R.Opening t.name (q :: above) n k → R.Remaining p above n k) :
    R.Keeps upper longest widest (R.enter u ⟨(), a.size, a.nodes, q.frame :: others.map Site.frame⟩ t.name) := by
  have ⟨top, below⟩ := List.forall_mem_cons.mp steady.few
  refine h.enter (q :: others) hu ht (List.forall_mem_cons.mpr ⟨valid, steady.consists.below⟩)
    (List.forall_mem_cons.mpr ⟨fewer.trans top, below⟩) fun above ha n k opening hn => ?_
  cases above
  case nil => exact h.opening_le opening (Nat.le_of_add_left_le hn)
  case cons q' above =>
    have ⟨hq, shorter⟩ := List.cons_prefix_cons.mp ha
    exact steady.bounded above shorter n k (remaining above n k (hq ▸ opening)) hn

section Step

variable {f : Frame} {run refs : List String}

theorem Steady.draw (steady : R.Steady upper longest widest a ⟨f, run, refs⟩ others)
    (h : R.Bounded upper longest widest wait) {r : Run} (hr : f.run = some r) (u : Float) :
    R.Keeps upper longest widest (drawRun (.always u) R.limit a f (others.map Site.frame) r) := by
  have valid : f.Valid R.tuned R.order run refs := steady.consists.top
  simp only [drawRun, Decider.always, Decider.ofNumbers]
  cases decide (u < r.p)
  case false =>
    have fewer : R.tasks (f.endRun r) < R.tasks f := ((h.ready valid).endRun hr).fewer
    exact ⟨_, others, steady.replace (q := ⟨f.endRun r, [], refs⟩) a.nodes 0 (.endRun h.resolved valid hr) fewer.le
      steady.within fun above n k remaining => (Nat.zero_add n).symm ▸ remaining.endRun h.resolved valid hr⟩
  case true =>
    simp only
    split
    case isTrue     => trivial
    case isFalse hw =>
      have within : a.size + r.element.atomSize ≤ upper := h.isOver.mp (by simpa using hw)
      have same : R.tasks { f with run := some { r with count := r.count + 1 } } = R.tasks f := by simp [tasks, hr]
      exact ⟨_, others, steady.replace (q := ⟨{ f with run := some { r with count := r.count + 1 } }, run, refs⟩)
        a.nodes _ (valid.more hr) same.le within fun above n k remaining => remaining.more h.resolved valid hr⟩

theorem Steady.look (steady : R.Steady upper longest widest a ⟨f, [], refs⟩ others)
    (h : R.Bounded upper longest widest wait) {slot : Slot} {slots : List Slot} (hr : f.run = none)
    (hs : f.slots = slot :: slots) (hc : R.order = .inPlace → f.calls = []) : R.Keeps upper longest widest
      (.running ⟨(), a.size, a.nodes, f.take R.order slot slots :: others.map Site.frame⟩) := by
  have valid : f.Valid R.tuned R.order [] refs := steady.consists.top
  have stands := valid.slots
  cases refs
  case nil         => simp [hs] at stands
  case cons r refs =>
    have fewer : R.tasks (f.take R.order slot slots) < R.tasks f := ((h.ready valid).take hr hs).fewer
    exact ⟨_, others, steady.replace (q := ⟨f.take R.order slot slots, Frame.Valid.opened r slot, refs⟩) a.nodes 0
      (valid.take hr hs) fewer.le steady.within fun above n k remaining =>
        (Nat.zero_add n).symm ▸ remaining.look h.resolved valid hr hs hc⟩

-- The node below takes over the one that is finished.
theorem Steady.finish (steady : R.Steady upper longest widest a ⟨f, [], []⟩ others) (hr : f.run = none)
    (hc : f.calls = []) (hh : f.hole.waits = []) :
    R.Keeps upper longest widest (Attempt.finish a f (others.map Site.frame)) := by
  cases others
  case nil           => trivial
  case cons q others =>
    obtain ⟨hq, below⟩ := List.forall_mem_cons.mp steady.consists.below
    obtain ⟨_, few⟩ := List.forall_mem_cons.mp steady.few
    obtain ⟨top, few⟩ := List.forall_mem_cons.mp few
    refine ⟨⟨q.frame.receive f.close, q.run, q.refs⟩, others, ⟨rfl, hq _, below⟩, steady.within, ?_, ?_⟩
    · intro above ha n k remaining hn
      have ha : q :: above <+: q :: others := List.cons_prefix_cons.mpr ⟨rfl, ha⟩
      exact Nat.le_of_succ_le <| steady.bounded _ ha _ _ (remaining.finish hr hc hh) hn
    · exact List.forall_mem_cons.mpr ⟨(R.tasks_receive q.frame f.close).trans_le top, few⟩

theorem Bounded.step (h : R.Bounded upper longest widest wait) (steady : R.Steady upper longest widest a p others)
    (hu : u ∈ R.pool) : R.Keeps upper longest widest (R.step u a) := by
  obtain ⟨f, run, refs⟩ := p
  have valid : f.Valid R.tuned R.order run refs := steady.consists.top
  have spec := Frame.action_spec R.order f
  simp only [Regime.step, Attempt.step, steady.consists.stack]
  cases ha : f.action R.order <;> simp only [ha] at spec
  case draw r => exact steady.draw h spec u
  case look slot slots =>
    obtain ⟨hr, hs, hc⟩ := spec
    obtain rfl := steady.consists.run_eq hr
    exact steady.look h hr hs hc
  case call T calls =>
    obtain ⟨hr, hc, ho⟩ := spec
    obtain rfl := steady.consists.run_eq hr
    obtain ⟨t, ht, rfl⟩ := valid.calls T (hc ▸ List.mem_cons_self)
    exact steady.enter (q := ⟨{ f with calls }, [], refs⟩) h hu ht (valid.call hr hc) (tasks_call hc)
      fun above n k opening => opening.call valid hr hc ho
  case «continue» T =>
    obtain ⟨idle, hh⟩ := spec
    obtain rfl := steady.consists.run_eq idle.1
    obtain ⟨t, ht, rfl⟩ := (valid.waiting T hh).1
    obtain ⟨_, _, fewer, _⟩ := (h.ready valid).continue hh
    exact steady.enter (q := ⟨{ f with hole := .filling }, [], refs⟩) h hu ht (valid.continue idle) fewer.le
      fun above n k opening => opening.continue valid idle hh
  case finish =>
    obtain ⟨⟨hr, hc, hs⟩, hh⟩ := spec
    obtain rfl := steady.consists.run_eq hr
    obtain rfl : refs = [] := by simpa [hs] using valid.slots
    exact steady.finish hr hc hh

end Step

end Regime

end BoltzmannSampling
