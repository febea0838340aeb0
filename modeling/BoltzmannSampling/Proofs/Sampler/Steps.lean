import Mathlib
import BoltzmannSampling.Proofs.Sampler.Descent

/-!
From one step of an attempt to all of them. Every step leaves what there is to come as it is, or there is nothing that
the limit allows. So an attempt has a structure after enough steps exactly if it is that of a derivation which the
source follows and the limit allows.
-/

namespace BoltzmannSampling

namespace Attempt

variable {σ : Type} {D : Decider σ} {tuned : Tuned} {order : DrawOrder} {limit : Option Nat}
variable {a b : Attempt σ} {p : Site} {others : List Site} {source source' : σ} {n : Nat} {w : Structure}

-- An attempt with these nodes under construction, the innermost first.
structure Consists (tuned : Tuned) (order : DrawOrder) (a : Attempt σ) (p : Site) (others : List Site) : Prop where
  stack : a.stack = p.frame :: others.map Site.frame
  top   : p.frame.Valid tuned order p.run p.refs
  below : ∀ q ∈ others, q.Valid tuned order

-- An attempt comes to its end with so many atoms in all.
def Ends (D : Decider σ) (tuned : Tuned) (order : DrawOrder) (a : Attempt σ) (p : Site) (others : List Site)
    (source' : σ) (total k : Nat) (w : Structure) : Prop :=
  ∃ n, total = a.size + n ∧ Completes D tuned order p.frame p.run p.refs others a.source source' n k w

-- How what is to come is told by a step: it is what comes after the step, or all there is, or there is nothing that
-- the limit allows.
def Leads (D : Decider σ) (tuned : Tuned) (order : DrawOrder) (limit : Option Nat)
    (ends : σ → Nat → Nat → Structure → Prop) : Progress σ → Prop
  | .running b    => ∃ p others, Consists tuned order b p others ∧
      ∀ source' total k w, ends source' total k w ↔ ∃ l, k = l + 1 ∧ Ends D tuned order b p others source' total l w
  | .done found b => ∀ source' total k w, ends source' total k w ↔
      b.source = source' ∧ b.size = total ∧ found.unmarked = w ∧ k = 1
  | .exceeded _   => ∀ source' total k w, ends source' total k w → isOver limit total = true
  | .stuck _      => ∀ source' total k w, ¬ends source' total k w

namespace Leads

variable {ends ends' : σ → Nat → Nat → Structure → Prop} {P : Progress σ}

theorem of_iff (h : Leads D tuned order limit ends' P)
    (he : ∀ source' total k w, ends source' total k w ↔ ends' source' total k w) :
    Leads D tuned order limit ends P :=
  (funext fun _ => funext fun _ => funext fun _ => funext fun _ => propext (he ..) : ends = ends') ▸ h

-- A step that counts so many atoms.
theorem advance {q : Site} {others' : List Site} {atoms : Nat} (consists : Consists tuned order b q others')
    (size : b.size = a.size + atoms)
    (h : ∀ source' n k w, Completes D tuned order p.frame p.run p.refs others a.source source' n k w ↔
      ∃ m l, n = atoms + m ∧ k = l + 1 ∧
        Completes D tuned order q.frame q.run q.refs others' b.source source' m l w) :
    Leads D tuned order limit (Ends D tuned order a p others) (.running b) := by
  refine ⟨q, others', consists, fun source' total k w => ?_⟩
  constructor
  · intro ⟨n, ht, done⟩
    have ⟨m, l, hn, hk, done⟩ := (h ..).mp done
    exact ⟨l, hk, m, by omega, done⟩
  · intro ⟨l, hk, m, ht, done⟩
    exact ⟨atoms + m, by omega, (h ..).mpr ⟨m, l, rfl, hk, done⟩⟩

theorem next {q : Site} {others' : List Site} (consists : Consists tuned order b q others') (size : b.size = a.size)
    (h : ∀ source' n k w, Completes D tuned order p.frame p.run p.refs others a.source source' n k w ↔
      ∃ l, k = l + 1 ∧ Completes D tuned order q.frame q.run q.refs others' b.source source' n l w) :
    Leads D tuned order limit (Ends D tuned order a p others) (.running b) :=
  advance consists (size.trans a.size.add_zero.symm) fun source' n k w => by simp [h]

end Leads

theorem isOver_mono {m n : Nat} (h : m ≤ n) (hm : isOver limit m = true) : isOver limit n = true := by
  cases limit
  case none   => simp [isOver] at hm
  case some l =>
    simp only [isOver, decide_eq_true_eq] at hm ⊢
    omega

theorem enter_leads (resolved : tuned.system.Resolved) {u : TypeDef} (hu : u ∈ tuned.system.userTypes)
    (others : List Site) (hs : a.stack = others.map Site.frame) (hv : ∀ q ∈ others, q.Valid tuned order) :
    Leads D tuned order limit
      (fun source' total k w => ∃ n, total = a.size + n ∧ Begins D tuned order u.name others a.source source' n k w)
      (enter D (.ofTuned tuned) limit a u.name) := by
  have ht : u ∈ tuned.system.types := (List.mem_filter.mp hu).1
  simp only [enter, tuned.dispatch?_eq resolved ht, begins_iff resolved hu a.nodes]
  cases hp : D.plan (tuned.dispatch u) a.source
  case mk plan next =>
  cases plan
  case none =>
    rintro _ _ _ _ ⟨_, _, c, hc, _, hf, _⟩
    simp [(Tuned.plan_eq_some resolved ht).mpr ⟨c, hc, rfl, hf⟩] at hp
  case some plan =>
    obtain ⟨c, hc, rfl, hf⟩ := (Tuned.plan_eq_some resolved ht).mp hp
    -- The source follows no other constructor.
    have unique {c' : Constructor Symbol} {next' : σ} (hc' : c' ∈ u.constructors)
        (hf' : D.Follows (tuned.pick u c') a.source next') : c' = c ∧ next' = next := by
      have he := hp.symm.trans <| (Tuned.plan_eq_some resolved ht).mpr ⟨c', hc', rfl, hf'⟩
      simp only [Prod.mk.injEq, Option.some.injEq] at he
      have hn : c.name = c'.name := congrArg Plan.constructor he.1
      exact ⟨(resolved.constructor_unique ht hc' ht hc hn.symm).2, he.2.symm⟩
    have weight : (tuned.plan u c).weight = c.size := rfl
    simp only [start, weight]
    split
    case isTrue hw =>
      rintro _ total _ _ ⟨n, ht, c', hc', next', hf', m, _, hn, _⟩
      obtain ⟨rfl, rfl⟩ := unique hc' hf'
      exact isOver_mono (by omega) hw
    case isFalse =>
      refine ⟨⟨frame a.nodes u.name (tuned.plan u c), [], c.refs⟩, others, ⟨by rw [hs], .frame resolved ht hc _, hv⟩,
        fun source' total k w => ?_⟩
      constructor
      · rintro ⟨n, ht, c', hc', next', hf', m, l, hn, hk, done⟩
        obtain ⟨rfl, rfl⟩ := unique hc' hf'
        exact ⟨l, hk, m, by simp only; omega, done⟩
      · rintro ⟨l, hk, m, hm, done⟩
        exact ⟨c.size + m, by simp only at hm; omega, c, hc, next, hf, m, l, rfl, hk, done⟩

-- Without a run to go on with, none has a type.
theorem Consists.run_eq (h : Consists tuned order a p others) (hr : p.frame.run = none) : p.run = [] := by
  have stands := h.top.run
  rw [hr] at stands
  exact List.forall₂_nil_right_iff.mp stands

theorem drawRun_leads (resolved : tuned.system.Resolved) (h : Consists tuned order a p others) {r : Run}
    (hr : p.frame.run = some r) :
    Leads D tuned order limit (Ends D tuned order a p others)
      (drawRun D limit a p.frame (others.map Site.frame) r) := by
  have draw (source' n k w) : Completes D tuned order p.frame p.run p.refs others a.source source' n k w ↔ _ :=
    Completes.draw resolved h.top hr
  simp only [drawRun]
  split
  case h_1 hg =>
    rintro source' _ k w ⟨n, _, done⟩
    simp [draw, hg] at done
  case h_2 next hg =>
    simp only [hg, Option.some.injEq, Prod.mk.injEq, true_and, exists_eq_left'] at draw
    split
    case isTrue hw =>
      rintro source' total k w ⟨n, ht, done⟩
      simp at draw
      obtain ⟨m, hn, _⟩ := (draw ..).mp done
      exact isOver_mono (by omega) hw
    case isFalse =>
      refine .advance (q := ⟨{ p.frame with run := some { r with count := r.count + 1 } }, p.run, p.refs⟩)
        ⟨rfl, h.top.more hr, h.below⟩ rfl fun source' n k w => ?_
      simp [draw]
  case h_3 next hg =>
    refine .next (q := ⟨p.frame.endRun r, [], p.refs⟩) ⟨rfl, .endRun resolved h.top hr, h.below⟩ rfl
      fun source' n k w => ?_
    simp [draw, hg]

theorem take_leads (resolved : tuned.system.Resolved) {f : Frame} {refs : List String} {slot : Slot}
    {slots : List Slot} (h : Consists tuned order a ⟨f, [], refs⟩ others) (hr : f.run = none)
    (hs : f.slots = slot :: slots) (hc : order = .inPlace → f.calls = []) :
    Leads D tuned order limit (Ends D tuned order a ⟨f, [], refs⟩ others)
      (.running { a with stack := f.take order slot slots :: others.map Site.frame }) := by
  have stands := h.top.slots
  cases refs
  case nil => simp [hs] at stands
  case cons r refs =>
    exact .next (q := ⟨f.take order slot slots, _, refs⟩) ⟨rfl, h.top.take hr hs, h.below⟩ rfl fun _ _ _ _ =>
      Completes.look resolved h.top hr hs hc

theorem call_leads (resolved : tuned.system.Resolved) {f : Frame} {refs calls : List String} {T : String}
    (h : Consists tuned order a ⟨f, [], refs⟩ others) (hr : f.run = none) (hc : f.calls = T :: calls)
    (ho : order = .ahead → f.slots = []) :
    Leads D tuned order limit (Ends D tuned order a ⟨f, [], refs⟩ others)
      (enter D (.ofTuned tuned) limit { a with stack := { f with calls } :: others.map Site.frame } T) := by
  obtain ⟨u, hu, rfl⟩ := h.top.calls T (hc ▸ List.mem_cons_self)
  have entered : Leads D tuned order limit _ _ :=
    enter_leads (a := { a with stack := { f with calls } :: others.map Site.frame }) resolved hu
      (⟨{ f with calls }, [], refs⟩ :: others) rfl (List.forall_mem_cons.mpr ⟨h.top.call hr hc, h.below⟩)
  exact entered.of_iff fun _ _ _ _ => by simp only [Ends, Completes.call h.top hr hc ho]

theorem continue_leads (resolved : tuned.system.Resolved) {f : Frame} {refs : List String} {T : String}
    (h : Consists tuned order a ⟨f, [], refs⟩ others) (idle : f.Idle) (hh : f.hole = .waiting T) :
    Leads D tuned order limit (Ends D tuned order a ⟨f, [], refs⟩ others)
      (enter D (.ofTuned tuned) limit { a with stack := { f with hole := .filling } :: others.map Site.frame } T) := by
  obtain ⟨u, hu, rfl⟩ := (h.top.waiting T hh).1
  have entered : Leads D tuned order limit _ _ :=
    enter_leads (a := { a with stack := { f with hole := .filling } :: others.map Site.frame }) resolved hu
      (⟨{ f with hole := .filling }, [], refs⟩ :: others) rfl
      (List.forall_mem_cons.mpr ⟨h.top.continue idle, h.below⟩)
  exact entered.of_iff fun _ _ _ _ => by simp only [Ends, Completes.continue h.top idle hh]

theorem finish_leads {f : Frame} {refs : List String} (h : Consists tuned order a ⟨f, [], refs⟩ others)
    (idle : f.Idle) (hh : f.hole.waits = []) :
    Leads D tuned order limit (Ends D tuned order a ⟨f, [], refs⟩ others)
      (finish a f (others.map Site.frame)) := by
  obtain ⟨hr, hc, hs⟩ := idle
  obtain rfl : refs = [] := by simpa [hs] using h.top.slots
  cases others
  case nil =>
    intro source' total k w
    simp only [Ends, Completes.finish hr hc hh]
    constructor
    · rintro ⟨n, ht, l, hk, ts, below, follows⟩
      cases below
      exact ⟨Decider.follows_nil.mp follows, ht.symm, rfl, hk⟩
    · rintro ⟨hs, ht, hw, hk⟩
      exact ⟨0, ht.symm, 0, hk, [], hw ▸ .root, Decider.follows_nil.mpr hs⟩
  case cons q others =>
    obtain ⟨hq, below⟩ := List.forall_mem_cons.mp h.below
    refine .next (q := ⟨q.frame.receive f.close, q.run, q.refs⟩) ⟨rfl, hq _, below⟩ rfl fun source' n k w => ?_
    simp only [Completes.finish hr hc hh, Completes.receive, Below.of_unmarked]

theorem step_leads (resolved : tuned.system.Resolved) (h : Consists tuned order a p others) :
    Leads D tuned order limit (Ends D tuned order a p others) (step D (.ofTuned tuned) order limit a) := by
  obtain ⟨f, run, refs⟩ := p
  have idle (hr : f.run = none) : run = [] := h.run_eq hr
  have spec := Frame.action_spec order f
  simp only [step, h.stack]
  cases ha : f.action order <;> simp only [ha] at spec
  case draw r => exact drawRun_leads resolved h spec
  case look slot slots =>
    obtain ⟨hr, hs, hc⟩ := spec
    obtain rfl := idle hr
    exact take_leads resolved h hr hs hc
  case call T calls =>
    obtain ⟨hr, hc, ho⟩ := spec
    obtain rfl := idle hr
    exact call_leads resolved h hr hc ho
  case «continue» T =>
    obtain rfl := idle spec.1.1
    exact continue_leads resolved h spec.1 spec.2
  case finish =>
    obtain rfl := idle spec.1.1
    exact finish_leads h spec.1 spec.2

-- An attempt ends with a structure, with so many atoms and such a source.
def Gives (P : Progress σ) (source' : σ) (total : Nat) (w : Structure) : Prop :=
  ∃ found b, P = .done found b ∧ b.source = source' ∧ b.size = total ∧ found.unmarked = w

-- One step, and then the others.
theorem Leads.gives_iff {ends : σ → Nat → Nat → Structure → Prop} {P : Progress σ} {fuel total : Nat}
    (h : Leads D tuned order limit ends P) (within : isOver limit total = false)
    (later : ∀ b p others, Consists tuned order b p others →
      (Gives (steps D (.ofTuned tuned) order limit fuel b) source' total w ↔
        ∃ k ≤ fuel, Ends D tuned order b p others source' total k w)) :
    Gives (match P with
      | .running b => steps D (.ofTuned tuned) order limit fuel b
      | other => other) source' total w ↔ ∃ k ≤ fuel + 1, ends source' total k w := by
  cases P
  case running b =>
    obtain ⟨q, others, consists, hends⟩ := h
    simp only [later b q others consists, hends]
    constructor
    · rintro ⟨l, hl, done⟩
      exact ⟨l + 1, by omega, l, rfl, done⟩
    · rintro ⟨k, hk, l, hl, done⟩
      exact ⟨l, by omega, done⟩
  case done found b =>
    simp only [Leads] at h
    simp [Gives, h]
  case exceeded =>
    constructor
    · rintro ⟨_, _, hd, _⟩
      cases hd
    · rintro ⟨k, _, done⟩
      simp [h _ _ _ _ done] at within
  case stuck =>
    constructor
    · rintro ⟨_, _, hd, _⟩
      cases hd
    · rintro ⟨k, _, done⟩
      exact (h _ _ _ _ done).elim

-- By induction on the number of steps, whatever the nodes under construction are.
theorem steps_gives_iff (resolved : tuned.system.Resolved) {fuel total : Nat} (h : Consists tuned order a p others)
    (within : isOver limit total = false) :
    Gives (steps D (.ofTuned tuned) order limit fuel a) source' total w ↔
      ∃ k ≤ fuel, Ends D tuned order a p others source' total k w := by
  induction fuel generalizing a p others
  case zero =>
    constructor
    · rintro ⟨found, b, hs, _⟩
      simp [steps] at hs
    · rintro ⟨k, hk, n, _, x, _, _, _, _, _, _, _, he⟩
      simp only [Filling.steps] at he
      omega
  case succ fuel hi => exact (step_leads resolved h).gives_iff within fun _ _ _ => hi

theorem draw_gives_iff (resolved : tuned.system.Resolved) (fuel : Nat) {u : TypeDef}
    (hu : u ∈ tuned.system.userTypes) :
    Gives (draw D (.ofTuned tuned) order limit fuel source u.name) source' n w ↔
      ∃ d ∈ tuned.system.derivations u.name, D.Follows (d.turns tuned order) source source' ∧
        n = d.size ∧ w = d.toStructure ∧ d.steps ≤ fuel + 1 ∧ isOver limit n = false := by
  by_cases within : isOver limit n = false
  case neg =>
    constructor
    · rintro ⟨found, b, hd, _, hn, _⟩
      exact absurd (hn ▸ (Accounted.draw_done hd).2.2) within
    · rintro ⟨_, _, _, _, _, _, h⟩
      exact absurd h within
  case pos =>
    have entered : Leads D tuned order limit _ _ :=
      enter_leads (a := ⟨source, 0, 0, []⟩) resolved hu [] rfl (by simp)
    refine (entered.gives_iff within fun _ _ _ consists => steps_gives_iff resolved consists within).trans ?_
    simp only [begins_nil, Nat.zero_add, exists_eq_left']
    constructor
    · rintro ⟨k, hk, d, hd, follows, hn, he, hw⟩
      exact ⟨d, hd, follows, hn, hw, he ▸ hk, within⟩
    · rintro ⟨d, hd, follows, hn, hw, hk, _⟩
      exact ⟨_, hk, d, hd, follows, hn, rfl, hw⟩

end Attempt

end BoltzmannSampling
