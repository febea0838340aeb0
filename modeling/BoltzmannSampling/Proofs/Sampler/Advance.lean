import Mathlib
import BoltzmannSampling.Proofs.Sampler.Stages
import BoltzmannSampling.Proofs.Sampler.Validity

/-!
Attempts that can move on. A type moves on if some number picks a constructor of it that has atoms, or whose arguments
all move on; a run of atoms always does, and a run of types if some number ends it. Where all types move on, a node
under construction can be finished within a bounded number of steps, unless the attempt grows before.
-/

namespace BoltzmannSampling

namespace Tuned

inductive Moves (tuned : Tuned) (pool : Finset Float) : String → Prop
  | grows {t c u} (type : t ∈ tuned.system.userTypes) (choice : c ∈ t.constructors) (number : u ∈ pool)
      (picked : ∀ turn ∈ tuned.pick t c, turn.accepts u) (atoms : 0 < c.size) : Moves tuned pool t.name
  | rests {t c u} (type : t ∈ tuned.system.userTypes) (choice : c ∈ t.constructors) (number : u ∈ pool)
      (picked : ∀ turn ∈ tuned.pick t c, turn.accepts u) (below : ∀ r ∈ c.refs, Moves tuned pool r) :
      Moves tuned pool t.name
  | run {m e} (type : .auxiliary m e ∈ tuned.system.types)
      (ends : e.type?.isSome → ∃ u ∈ pool, ¬u < tuned.continuing (TypeDef.auxiliaryName m e)) :
      Moves tuned pool (TypeDef.auxiliaryName m e)

-- Where no constructor is left out, and no sequence or set goes on forever, every type moves on.
theorem moves_of_picked {tuned : Tuned} {pool : Finset Float} (resolved : tuned.system.Resolved)
    (productive : ∀ T ∈ tuned.system.names, T ∈ tuned.system.productive)
    (picked : ∀ t ∈ tuned.system.userTypes, ∀ c ∈ t.constructors, ∃ u ∈ pool, ∀ turn ∈ tuned.pick t c, turn.accepts u)
    (ends : ∀ m T, .auxiliary m (.ref T) ∈ tuned.system.types →
      ∃ u ∈ pool, ¬u < tuned.continuing (TypeDef.auxiliaryName m (.ref T))) :
    ∀ T ∈ tuned.system.names, tuned.Moves pool T := by
  intro T hT
  obtain ⟨d, hd⟩ := Specification.mem_productive.mp (productive T hT)
  refine Specification.derivations_induction (motive := fun T _ => tuned.Moves pool T) (fun t c _ ht hc hp => ?_) hd
  by_cases ha : t.isAuxiliary
  case pos =>
    obtain ⟨m, e, ho⟩ := TypeDef.origin_of_isAuxiliary ha
    obtain rfl := resolved.auxiliary t ht m e ho
    refine .run ht fun he => ?_
    cases e
    case atom  => simp [Element.type?] at he
    case ref T => exact ends m T ht
  case neg =>
    have user : t ∈ tuned.system.userTypes := List.mem_filter.mpr ⟨ht, by simpa using ha⟩
    obtain ⟨u, number, picked⟩ := picked t user c hc
    refine .rests user hc number picked fun r hr => ?_
    obtain ⟨_, _, _, moves⟩ := hp.exists_right hr
    exact moves

end Tuned

-- What attempts go by: a tuned system, the numbers they may be given, the order of drawing and the limit.
structure Regime where
  tuned : Tuned
  pool  : Finset Float
  order : DrawOrder
  limit : Option Nat

namespace Frame

variable (f : Frame) (c : Structure)

theorem due_receive : (f.receive c).due = f.due := by
  rw [receive]
  cases f.hole <;> rfl

theorem waits_receive : (f.receive c).hole.waits = f.hole.waits := by
  rw [receive]
  cases f.hole <;> rfl

theorem slots_receive : (f.receive c).slots = f.slots := by
  rw [receive]
  cases f.hole <;> rfl

theorem calls_receive : (f.receive c).calls = f.calls := by
  rw [receive]
  cases f.hole <;> rfl

end Frame

namespace Regime

variable {R : Regime} {goal goal' : Progress Unit → Prop} {P : Progress Unit} {T : String} {k l size : Nat}

def step (R : Regime) (u : Float) (a : Attempt Unit) : Progress Unit :=
  a.step (.always u) (.ofTuned R.tuned) R.order R.limit

def enter (R : Regime) (u : Float) (a : Attempt Unit) (T : String) : Progress Unit :=
  a.enter (.always u) (.ofTuned R.tuned) R.limit T

def nullable (R : Regime) : List String := R.tuned.system.nullable

-- With numbers from the pool, one a step, an attempt comes to a goal within so many steps.
inductive Can (R : Regime) (goal : Progress Unit → Prop) : Nat → Progress Unit → Prop
  | now {k : Nat} {P : Progress Unit} (h : goal P) : Can R goal k P
  | later {k : Nat} {a : Attempt Unit} {u : Float} (number : u ∈ R.pool) (h : Can R goal k (R.step u a)) :
      Can R goal (k + 1) (.running a)

namespace Can

theorem mono (h : R.Can goal k P) (hk : k ≤ l) : R.Can goal l P := by
  induction h generalizing l
  case now h => exact .now h
  case later number _ hi =>
    obtain ⟨l, rfl⟩ := Nat.exists_eq_succ_of_ne_zero (show l ≠ 0 by omega)
    exact .later number (hi (by omega))

theorem bind (h : R.Can goal k P) (next : ∀ Q, goal Q → R.Can goal' l Q) : R.Can goal' (k + l) P := by
  induction h
  case now h => exact (next _ h).mono (by omega)
  case later number _ hi =>
    rw [Nat.add_right_comm]
    exact .later number hi

end Can

-- An attempt has more atoms than so many, or too many.
def Grown (size : Nat) : Progress Unit → Prop
  | .running a  => size < a.size
  | .exceeded _ => True
  | _           => False

-- A node of a type has been drawn without atoms for the node on top, unless the attempt has grown.
def Taken (R : Regime) (T : String) (size : Nat) (g : Frame) (rest : List Frame) (P : Progress Unit) : Prop :=
  Grown size P ∨ T ∈ R.nullable ∧ ∃ nodes c, P = .running ⟨(), size, nodes, g.receive c :: rest⟩

def Enters (R : Regime) (k : Nat) (T : String) : Prop :=
  ∀ size nodes g rest, ∃ u ∈ R.pool, R.Can (R.Taken T size g rest) k (R.enter u ⟨(), size, nodes, g :: rest⟩ T)

theorem Enters.mono (h : R.Enters k T) (hk : k ≤ l) : R.Enters l T := by
  intro size nodes g rest
  have ⟨u, number, can⟩ := h size nodes g rest
  exact ⟨u, number, can.mono hk⟩

def Takes (R : Regime) (k : Nat) : Slot → Prop
  | .child T _ => R.Enters k T
  | .run p e   => ∀ T, e = .ref T → T ∉ R.nullable ∧ ∃ u ∈ R.pool, ¬u < p

-- A node whose children, now and later, can all be entered, and whose runs can end; it has one continuation at most.
structure Ready (R : Regime) (k : Nat) (f : Frame) : Prop where
  due    : ∀ T ∈ f.due, R.Enters k T
  waits  : ∀ T ∈ f.hole.waits, R.Enters k T
  slots  : ∀ slot ∈ f.slots, R.Takes k slot
  run    : ∀ r, f.run = some r → R.Takes k r.slot
  single : f.slots.Pairwise fun a b => a.continues → b.continues = false
  held   : R.order = .inPlace → f.hole.waits ≠ [] → ∀ slot ∈ f.slots, slot.continues = false

-- A node that can be finished without atoms.
structure Light (R : Regime) (f : Frame) : Prop where
  due   : ∀ T ∈ f.due, T ∈ R.nullable
  waits : ∀ T ∈ f.hole.waits, T ∈ R.nullable
  slots : ∀ T c, .child T c ∈ f.slots → T ∈ R.nullable

-- How much a node has to do before it grows. A child with atoms counts for nothing, since the attempt grows with it.
def tasks (R : Regime) (f : Frame) : Nat :=
  f.run.toList.length + 2 * f.slots.length + (f.calls.filter (· ∈ R.nullable)).length + f.hole.waits.length

-- The node on top has nothing left to do, unless the attempt has grown.
def Finished (R : Regime) (size : Nat) (rest : List Frame) (f : Frame) (P : Progress Unit) : Prop :=
  Grown size P ∨ R.Light f ∧ ∃ nodes g, P = .running ⟨(), size, nodes, g :: rest⟩ ∧ g.Idle ∧ g.hole.waits = []

variable {f g : Frame} {rest : List Frame} {nodes : Nat}

-- What a step makes of a node: it still can be finished, has less to do, and is light only if it was before.
structure Onward (R : Regime) (k : Nat) (f g : Frame) : Prop where
  ready : R.Ready k g
  fewer : R.tasks g < R.tasks f
  light : R.Light g → R.Light f

theorem Onward.advance {u : Float} {nodes' : Nat} (h : R.Onward k f g) (number : u ∈ R.pool)
    (step : R.step u ⟨(), size, nodes, f :: rest⟩ = .running ⟨(), size, nodes', g :: rest⟩)
    (can : R.Can (R.Finished size rest g) ((k + 1) * (R.tasks g + 1)) (.running ⟨(), size, nodes', g :: rest⟩)) :
    R.Can (R.Finished size rest f) ((k + 1) * (R.tasks f + 1)) (.running ⟨(), size, nodes, f :: rest⟩) := by
  have same (Q) (hQ : R.Finished size rest g Q) : R.Can (R.Finished size rest f) 0 Q :=
    .now <| hQ.imp_right fun ⟨hl, hf⟩ => ⟨h.light hl, hf⟩
  have fewer := h.fewer
  have steps : (k + 1) * (R.tasks g + 1) + 1 ≤ (k + 1) * (R.tasks f + 1) := by nlinarith
  exact (Can.later number (step ▸ can.bind same)).mono steps

-- The children of a run have atoms, so that there is no more to do when it ends.
theorem Ready.endRun {r : Run} (h : R.Ready k f) (hr : f.run = some r) : R.Onward k f (f.endRun r) := by
  have ended : (f.endRun r).run = none ∧ (f.endRun r).calls = f.calls ++ r.elements ∧
      (f.endRun r).slots = f.slots ∧ (f.endRun r).hole = f.hole := by
    cases he : r.element <;> simp [Frame.endRun, he, Run.elements, Element.type?]
  obtain ⟨run, calls, slots, hole⟩ := ended
  have due : (f.endRun r).due = f.due := by simp [Frame.due, run, calls, hr]
  have atoms : r.elements.filter (· ∈ R.nullable) = [] := by
    cases he : r.element
    case atom  => simp [Run.elements, he, Element.type?]
    case ref T => simp [Run.elements, he, Element.type?, (h.run r hr T he).1]
  refine ⟨⟨due ▸ h.due, hole ▸ h.waits, slots ▸ h.slots, by simp [run], slots ▸ h.single, ?_⟩, ?_, fun light => ?_⟩
  · rw [hole, slots]
    exact h.held
  · simp only [tasks, run, calls, slots, hole, hr, List.filter_append, atoms, List.append_nil, Option.toList_none,
      Option.toList_some, List.length_nil, List.length_singleton]
    omega
  · exact ⟨due ▸ light.due, hole ▸ light.waits, slots ▸ light.slots⟩

theorem Ready.draw {r : Run} (h : R.Ready k f) (hr : f.run = some r) (pool : R.pool.Nonempty)
    (ha : f.action R.order = .draw r) (size nodes : Nat) (rest : List Frame) :
    ∃ u ∈ R.pool, Grown size (R.step u ⟨(), size, nodes, f :: rest⟩) ∨
      R.step u ⟨(), size, nodes, f :: rest⟩ = .running ⟨(), size, nodes, f.endRun r :: rest⟩ := by
  simp only [step, Attempt.step, ha, Attempt.drawRun, Decider.always, Decider.ofNumbers]
  cases he : r.element
  case ref T =>
    obtain ⟨_, u, number, ends⟩ := h.run r hr T he
    exact ⟨u, number, .inr (by simp [ends])⟩
  case atom b =>
    obtain ⟨u, number⟩ := pool
    refine ⟨u, number, ?_⟩
    by_cases goesOn : u < r.p
    case neg => exact .inr (by simp [goesOn])
    case pos =>
      have := b.positive
      simp only [goesOn, decide_true, Element.atomSize]
      refine .inl ?_
      by_cases hw : Attempt.isOver R.limit (size + b.size) <;> simp [hw, Grown, this]

section Take

variable {slot : Slot} {slots : List Slot} {p : Float} {e : Element}

theorem Ready.later (h : R.Ready k f) (hs : f.slots = slot :: slots) :
    (∀ slot ∈ slots, R.Takes k slot) ∧ slots.Pairwise (fun a b => a.continues → b.continues = false) ∧
      (R.order = .inPlace → f.hole.waits ≠ [] → ∀ slot ∈ slots, slot.continues = false) :=
  have fewer : slots.Sublist f.slots := hs ▸ List.sublist_cons_self ..
  ⟨fun slot hm => h.slots slot (fewer.subset hm), h.single.sublist fewer,
    fun ho hw slot hm => h.held ho hw slot (fewer.subset hm)⟩

theorem nullable_slots {c : Bool} (hs : f.slots = .child T c :: slots) (first : T ∈ R.nullable)
    (others : ∀ T c, .child T c ∈ slots → T ∈ R.nullable) : ∀ T c, .child T c ∈ f.slots → T ∈ R.nullable := by
  intro T' c' hm
  rw [hs] at hm
  cases List.mem_cons.mp hm
  case inl he => exact (Slot.child.inj he).1 ▸ first
  case inr hm => exact others T' c' hm

-- An argument that is a sequence or set becomes a run that has no elements yet.
theorem Ready.opens (h : R.Ready k f) (hr : f.run = none) (hs : f.slots = .run p e :: slots) :
    R.Onward k f { f with slots, run := some ⟨0, p, e⟩ } := by
  have ⟨takes, single, held⟩ := h.later hs
  have first : R.Takes k (.run p e) := h.slots _ (hs ▸ List.mem_cons_self)
  have due : { f with slots, run := some ⟨0, p, e⟩ }.due = f.due := by
    cases e <;> simp [Frame.due, hr, Run.elements, Element.type?]
  refine ⟨⟨due ▸ h.due, h.waits, takes, ?_, single, held⟩, ?_, fun light => ⟨due ▸ light.due, light.waits, ?_⟩⟩
  · rintro _ ⟨⟩
    exact first
  · simp [tasks, hr, hs]
    omega
  · intro T c hm
    have hm : .child T c ∈ slots := by simpa [hs] using hm
    exact light.slots T c hm

-- The continuation waits until the other arguments are drawn.
theorem Ready.holds (h : R.Ready k f) (hs : f.slots = .child T true :: slots) (ho : R.order = .inPlace) :
    R.Onward k f { f with slots, hole := .waiting T } := by
  have ⟨takes, single, _⟩ := h.later hs
  have enters : R.Enters k T := h.slots (.child T true) (hs ▸ List.mem_cons_self)
  have others := (List.pairwise_cons.mp (hs ▸ h.single)).1
  have none : f.hole.waits = [] := by
    by_contra hw
    have := h.held ho hw (.child T true) (hs ▸ List.mem_cons_self)
    simp [Slot.continues] at this
  refine ⟨⟨h.due, ?_, takes, h.run, single, fun _ _ slot hm => others slot hm rfl⟩, ?_,
    fun light => ⟨light.due, by simp [none], nullable_slots hs ?_ light.slots⟩⟩
  · simpa [Hole.waits] using enters
  · simp [tasks, hs, Hole.waits]
    omega
  · exact light.waits T List.mem_cons_self

theorem Ready.calls {c : Bool} (h : R.Ready k f) (hr : f.run = none) (hs : f.slots = .child T c :: slots) :
    R.Onward k f { f with slots, calls := f.calls ++ [T] } := by
  have ⟨takes, single, held⟩ := h.later hs
  have enters : R.Enters k T := h.slots (.child T c) (hs ▸ List.mem_cons_self)
  have due : { f with slots, calls := f.calls ++ [T] }.due = f.due ++ [T] := by simp [Frame.due, hr]
  refine ⟨⟨?_, h.waits, takes, h.run, single, held⟩, ?_, fun light => ?_⟩
  · rw [due]
    exact List.forall_mem_append.mpr ⟨h.due, by simpa using enters⟩
  · simp only [tasks, hr, hs, List.filter_append, List.length_append, List.length_cons]
    have : ([T].filter (· ∈ R.nullable)).length ≤ 1 := List.length_filter_le ..
    omega
  · have ⟨before, first⟩ := List.forall_mem_append.mp (due ▸ light.due)
    exact ⟨before, light.waits, nullable_slots hs (first T (List.mem_singleton_self T)) light.slots⟩

theorem Ready.take (h : R.Ready k f) (hr : f.run = none) (hs : f.slots = slot :: slots) :
    R.Onward k f (f.take R.order slot slots) := by
  cases slot
  case run p e   => exact h.opens hr hs
  case child T c =>
    rw [Frame.take]
    split
    case isTrue hc =>
      obtain ⟨rfl, ho⟩ := hc
      exact h.holds hs ho
    case isFalse   => exact h.calls hr hs

end Take

-- What a node has to do does not depend on the children it has.
theorem tasks_receive (R : Regime) (f : Frame) (c : Structure) : R.tasks (f.receive c) = R.tasks f := by
  simp only [tasks, f.receive_run, f.slots_receive, f.calls_receive, f.waits_receive]

theorem light_receive {c : Structure} : R.Light (f.receive c) ↔ R.Light f := by
  constructor
  · intro light
    exact ⟨f.due_receive c ▸ light.due, f.waits_receive c ▸ light.waits, f.slots_receive c ▸ light.slots⟩
  · intro light
    exact ⟨f.due_receive c ▸ light.due, f.waits_receive c ▸ light.waits, f.slots_receive c ▸ light.slots⟩

theorem Ready.receive (h : R.Ready k f) (c : Structure) : R.Ready k (f.receive c) where
  due    := f.due_receive c ▸ h.due
  waits  := f.waits_receive c ▸ h.waits
  slots  := f.slots_receive c ▸ h.slots
  run    := f.receive_run c ▸ h.run
  single := f.slots_receive c ▸ h.single
  held   := by
    rw [f.waits_receive, f.slots_receive]
    exact h.held

-- A step that enters a type: unless the attempt grows, the node takes over what has been drawn.
theorem Enters.finishes (enters : R.Enters k T)
    (step : ∀ u, R.step u ⟨(), size, nodes, f :: rest⟩ = R.enter u ⟨(), size, nodes, g :: rest⟩ T)
    (fewer : T ∈ R.nullable → R.tasks g < R.tasks f) (light : T ∈ R.nullable → R.Light g → R.Light f)
    (can : ∀ nodes c, T ∈ R.nullable → R.Can (R.Finished size rest (g.receive c))
      ((k + 1) * (R.tasks (g.receive c) + 1)) (.running ⟨(), size, nodes, g.receive c :: rest⟩)) :
    R.Can (R.Finished size rest f) ((k + 1) * (R.tasks f + 1)) (.running ⟨(), size, nodes, f :: rest⟩) := by
  have ⟨u, number, taken⟩ := enters size nodes g rest
  refine (Can.later (k := k + (k + 1) * R.tasks f) number (step u ▸ taken.bind fun Q h => ?_)).mono (by nlinarith)
  cases h
  case inl grown => exact .now (.inl grown)
  case inr h =>
    have ⟨nullable, nodes', c, hQ⟩ := h
    have same (Q) (h : R.Finished size rest (g.receive c) Q) : R.Can (R.Finished size rest f) 0 Q :=
      .now <| h.imp_right fun ⟨hl, hf⟩ => ⟨light nullable (light_receive.mp hl), hf⟩
    have steps : (k + 1) * (R.tasks (g.receive c) + 1) ≤ (k + 1) * R.tasks f :=
      Nat.mul_le_mul_left _ (R.tasks_receive g c ▸ fewer nullable)
    exact hQ ▸ ((can nodes' c nullable).bind same).mono steps

theorem tasks_call {calls : List String} (hc : f.calls = T :: calls) : R.tasks { f with calls } ≤ R.tasks f := by
  have : (calls.filter (· ∈ R.nullable)).length ≤ (f.calls.filter (· ∈ R.nullable)).length :=
    hc ▸ ((List.sublist_cons_self T calls).filter _).length_le
  simp only [tasks]
  omega

theorem Ready.call {calls : List String} (h : R.Ready k f) (hr : f.run = none) (hc : f.calls = T :: calls) :
    R.Enters k T ∧ R.Ready k { f with calls } ∧ (T ∈ R.nullable → R.tasks { f with calls } < R.tasks f) ∧
      (T ∈ R.nullable → R.Light { f with calls } → R.Light f) := by
  have due : f.due = T :: { f with calls }.due := by simp [Frame.due, hr, hc]
  have ⟨first, others⟩ := List.forall_mem_cons.mp (due ▸ h.due)
  refine ⟨first, ⟨others, h.waits, h.slots, h.run, h.single, h.held⟩, fun nullable => ?_, fun nullable light => ?_⟩
  · simp [tasks, hc, nullable]
  · exact ⟨due ▸ List.forall_mem_cons.mpr ⟨nullable, light.due⟩, light.waits, light.slots⟩

theorem Ready.continue (h : R.Ready k f) (hh : f.hole = .waiting T) :
    R.Enters k T ∧ R.Ready k { f with hole := .filling } ∧ R.tasks { f with hole := .filling } < R.tasks f ∧
      (T ∈ R.nullable → R.Light { f with hole := .filling } → R.Light f) := by
  have first : R.Enters k T := h.waits T (by simp [hh, Hole.waits])
  refine ⟨first, ⟨h.due, by simp [Hole.waits], h.slots, h.run, h.single, by simp [Hole.waits]⟩, ?_,
    fun nullable light => ?_⟩
  · simp [tasks, hh, Hole.waits]
  · exact ⟨light.due, by simpa [hh, Hole.waits] using nullable, light.slots⟩

-- By induction on what there is to do, whatever the node does next.
theorem Ready.finishes (pool : R.pool.Nonempty) (h : R.Ready k f) (size nodes : Nat) (rest : List Frame) :
    R.Can (R.Finished size rest f) ((k + 1) * (R.tasks f + 1)) (.running ⟨(), size, nodes, f :: rest⟩) := by
  induction hn : R.tasks f using Nat.strong_induction_on generalizing f nodes
  case h n hi =>
    subst hn
    have spec := Frame.action_spec R.order f
    cases ha : f.action R.order <;> simp only [ha] at spec
    case draw r =>
      have onward := h.endRun spec
      obtain ⟨u, number, drawn⟩ := h.draw spec pool ha size nodes rest
      cases drawn
      case inl grown => exact (Can.later number (.now (k := 0) (.inl grown))).mono (by nlinarith)
      case inr step  => exact onward.advance number step (hi _ onward.fewer onward.ready nodes rfl)
    case look slot slots =>
      have onward := h.take spec.1 spec.2.1
      obtain ⟨u, number⟩ := pool
      exact onward.advance number (by simp [step, Attempt.step, ha]) (hi _ onward.fewer onward.ready nodes rfl)
    case call T calls =>
      obtain ⟨enters, ready, fewer, light⟩ := h.call spec.1 spec.2.1
      refine enters.finishes (fun u => by simp [step, Attempt.step, ha]; rfl) fewer light fun nodes c nullable => ?_
      exact hi _ ((R.tasks_receive _ c).trans_lt (fewer nullable)) (ready.receive c) nodes rfl
    case «continue» T =>
      obtain ⟨enters, ready, fewer, light⟩ := h.continue spec.2
      refine enters.finishes (fun u => by simp [step, Attempt.step, ha]; rfl) (fun _ => fewer) light fun nodes c _ => ?_
      exact hi _ ((R.tasks_receive _ c).trans_lt fewer) (ready.receive c) nodes rfl
    case finish =>
      obtain ⟨hr, hc, hs⟩ := spec.1
      have due : f.due = [] := by simp [Frame.due, hr, hc]
      exact .now (.inr ⟨⟨by simp [due], by simp [spec.2], by simp [hs]⟩, nodes, f, rfl, spec⟩)

theorem action_finish {f : Frame} (idle : f.Idle) (hw : f.hole.waits = []) : f.action R.order = .finish := by
  have ⟨hr, hc, hs⟩ := idle
  cases hh : f.hole
  case waiting => simp [hh, Hole.waits] at hw
  case none | filling =>
    cases R.order <;> simp [Frame.action, Frame.looks, Frame.calling, Frame.ending, hr, hc, hs, hh]

-- Unless the attempt grows, the node is handed over to the one below it, if there is one.
theorem Ready.closes (pool : R.pool.Nonempty) (h : R.Ready k f) {most : Nat} (few : R.tasks f ≤ most)
    (size nodes : Nat) (rest : List Frame) :
    R.Can (fun P => Grown size P ∨ R.Light f ∧ ∃ nodes g, P = Attempt.finish ⟨(), size, nodes, g :: rest⟩ g rest)
      ((k + 1) * (most + 1) + 1) (.running ⟨(), size, nodes, f :: rest⟩) := by
  have ⟨u, number⟩ := pool
  have steps : (k + 1) * (R.tasks f + 1) ≤ (k + 1) * (most + 1) := Nat.mul_le_mul_left _ (Nat.succ_le_succ few)
  refine ((h.finishes pool size nodes rest).bind (l := 1) fun P hP => ?_).mono (Nat.succ_le_succ steps)
  cases hP
  case inl grown => exact .now (.inl grown)
  case inr hP    =>
    obtain ⟨light, nodes, g, rfl, idle, waits⟩ := hP
    refine .later number (.now (.inr ⟨light, nodes, g, ?_⟩))
    simp only [step, Attempt.step, action_finish idle waits]

-- What is known of a reference: its type can be entered, or a run of its elements can end.
structure Answers (R : Regime) (k : Nat) (r : String) : Prop where
  enters : (∃ u ∈ R.tuned.system.userTypes, u.name = r) → R.Enters k r
  ends   : ∀ m T, r = TypeDef.auxiliaryName m (.ref T) → .auxiliary m (.ref T) ∈ R.tuned.system.types →
    ∃ u ∈ R.pool, ¬u < R.tuned.continuing r

variable {t : TypeDef} {c : Constructor Symbol} {u : Float} {r : String} {slot : Slot} {a : Attempt Unit}

theorem always_follows {ts : List Turn} (h : ∀ turn ∈ ts, turn.accepts u) : (Decider.always u).Follows ts () () := by
  induction ts
  case nil => exact .nil
  case cons turn ts hi =>
    have ⟨first, others⟩ := List.forall_mem_cons.mp h
    exact .cons (Decider.ofNumbers_takes.mpr ⟨first, rfl⟩) (hi others)

theorem enter_picked (resolved : R.tuned.system.Resolved) (ht : t ∈ R.tuned.system.types) (hc : c ∈ t.constructors)
    (picked : ∀ turn ∈ R.tuned.pick t c, turn.accepts u) :
    R.enter u a t.name = Attempt.start R.limit a t.name (R.tuned.plan t c) := by
  have plan : (Decider.always u).plan (R.tuned.dispatch t) a.source = (some (R.tuned.plan t c), ()) :=
    (Tuned.plan_eq_some resolved ht).mpr ⟨c, hc, rfl, always_follows picked⟩
  simp only [enter, Attempt.enter, R.tuned.dispatch?_eq resolved ht, plan]

theorem Answers.mono {l : Nat} (h : R.Answers k r) (hk : k ≤ l) : R.Answers l r :=
  ⟨fun user => (h.enters user).mono hk, h.ends⟩

-- No element of a sequence or set is nullable.
theorem Answers.takes (h : R.Answers k r) (stands : R.tuned.StandsFor r slot)
    (elements : ∀ m T, .auxiliary m (.ref T) ∈ R.tuned.system.types → T ∉ R.nullable) : R.Takes k slot := by
  cases slot
  case child T _ =>
    have ⟨hT, user⟩ := stands
    exact hT ▸ h.enters user
  case run p e =>
    have ⟨hp, m, hr, haux⟩ := stands
    intro T he
    subst he
    exact ⟨elements m T haux, hp ▸ h.ends m T hr haux⟩

theorem ready_frame (resolved : R.tuned.system.Resolved) (ht : t ∈ R.tuned.system.types) (hc : c ∈ t.constructors)
    (elements : ∀ m T, .auxiliary m (.ref T) ∈ R.tuned.system.types → T ∉ R.nullable)
    (answers : ∀ r ∈ c.refs, R.Answers k r) (mark : Nat) :
    R.Ready k (Attempt.frame mark t.name (R.tuned.plan t c)) where
  due T hT := by simp [Frame.due, Attempt.frame] at hT
  waits T hT := by simp [Attempt.frame, Hole.waits] at hT
  slots slot hs :=
    have ⟨r, hr, stands⟩ := (R.tuned.plan_slots resolved ht hc).exists_left hs
    (answers r hr).takes stands elements
  run r hr := by simp [Attempt.frame] at hr
  single := R.tuned.plan_single t c
  held _ hw := by simp [Attempt.frame, Hole.waits] at hw

theorem nullable_of_standsFor (stands : R.tuned.StandsFor r slot) (child : ∀ T c, slot = .child T c → T ∈ R.nullable) :
    r ∈ R.nullable := by
  cases slot
  case child T c => exact stands.1 ▸ child T c rfl
  case run p e   =>
    have ⟨_, m, hr, haux⟩ := stands
    exact hr ▸ Specification.mem_nullable.mpr ⟨_, Specification.nil_mem haux, Derivation.size_nil m e⟩

theorem nullable_of_light (resolved : R.tuned.system.Resolved) (ht : t ∈ R.tuned.system.types) (hc : c ∈ t.constructors)
    (hz : c.size = 0) {mark : Nat} (light : R.Light (Attempt.frame mark t.name (R.tuned.plan t c))) :
    t.name ∈ R.nullable := by
  have refs : ∀ r ∈ c.refs, r ∈ R.nullable := fun r hr =>
    have ⟨slot, hs, stands⟩ := (R.tuned.plan_slots resolved ht hc).exists_right hr
    nullable_of_standsFor stands fun T c' he => light.slots T c' (he ▸ hs)
  have ⟨parts, forest, empty⟩ := Specification.exists_empty_parts refs
  have hd := Specification.node_mem_derivations.mpr ⟨⟨ht, rfl⟩, hc, forest⟩
  exact Specification.mem_nullable.mpr ⟨_, hd, by rw [Derivation.size_node, hz, empty]⟩

-- A node with a constructor that has been picked begins, and is drawn without atoms or grows.
theorem start_taken (resolved : R.tuned.system.Resolved) (ht : t ∈ R.tuned.system.types) (hc : c ∈ t.constructors)
    (numbers : R.pool.Nonempty) (size nodes : Nat) (g : Frame) (rest : List Frame)
    (ready : c.size = 0 → ∀ mark, R.Ready k (Attempt.frame mark t.name (R.tuned.plan t c))) :
    R.Can (R.Taken t.name size g rest)
      ((k + 1) * (2 * c.refs.length + 1) + 1)
      (Attempt.start R.limit ⟨(), size, nodes, g :: rest⟩ t.name (R.tuned.plan t c)) := by
  have weight : (R.tuned.plan t c).weight = c.size := rfl
  by_cases hw : Attempt.isOver R.limit (size + c.size)
  case pos => exact .now (.inl (by simp [Attempt.start, weight, hw, Grown]))
  case neg =>
    by_cases hz : c.size = 0
    case neg => exact .now (.inl (by simp [Attempt.start, weight, hw, Grown]; omega))
    case pos =>
      have started : Attempt.start R.limit ⟨(), size, nodes, g :: rest⟩ t.name (R.tuned.plan t c) =
          .running ⟨(), size, nodes + 1, Attempt.frame nodes t.name (R.tuned.plan t c) :: g :: rest⟩ := by
        simpa [Attempt.start, weight, hz] using hw
      have tasks : R.tasks (Attempt.frame nodes t.name (R.tuned.plan t c)) =
          2 * c.refs.length := by
        simp [Regime.tasks, Attempt.frame, Hole.waits, (R.tuned.plan_slots resolved ht hc).length_eq]
      rw [started]
      refine ((ready hz nodes).closes numbers tasks.le size (nodes + 1) (g :: rest)).bind (l := 0) fun Q h => ?_
      cases h
      case inl grown => exact .now (.inl grown)
      case inr h     =>
        obtain ⟨light, nodes', f, hQ⟩ := h
        exact .now (.inr ⟨nullable_of_light resolved ht hc hz light, nodes', f.close, hQ⟩)

theorem exists_answers (resolved : R.tuned.system.Resolved) (numbers : R.pool.Nonempty)
    (elements : ∀ m T, .auxiliary m (.ref T) ∈ R.tuned.system.types → T ∉ R.tuned.system.nullable)
    (h : R.tuned.Moves R.pool T) : ∃ k, R.Answers k T := by
  have other {t : TypeDef} (ht : t ∈ R.tuned.system.userTypes) {m : Modifier} {e : Element}
      (haux : .auxiliary m e ∈ R.tuned.system.types) : t.name ≠ TypeDef.auxiliaryName m e := by
    intro hn
    have ⟨ht, hd⟩ := List.mem_filter.mp ht
    rw [resolved.type_unique ht haux hn] at hd
    cases hd
  have picked {t c u} (ht : t ∈ R.tuned.system.userTypes) (hc : c ∈ t.constructors) (number : u ∈ R.pool)
      (picked : ∀ turn ∈ R.tuned.pick t c, turn.accepts u) (k : Nat)
      (ready : c.size = 0 → ∀ mark, R.Ready k (Attempt.frame mark t.name (R.tuned.plan t c))) :
      ∃ k, R.Answers k t.name := by
    have hm := (List.mem_filter.mp ht).1
    refine ⟨(k + 1) * (2 * c.refs.length + 1) + 1, fun _ size nodes g rest => ⟨u, number, ?_⟩,
      fun m T hn haux => absurd hn (other ht haux)⟩
    rw [enter_picked resolved hm hc picked]
    exact start_taken resolved hm hc numbers size nodes g rest ready
  induction h
  case grows ht hc number hp atoms => exact picked ht hc number hp 0 fun hz => absurd hz atoms.ne'
  case rests t c u ht hc number hp _ hi =>
    choose! bound answers using hi
    refine picked ht hc number hp (c.refs.map bound).sum fun _ mark =>
      ready_frame resolved (List.mem_filter.mp ht).1 hc elements (fun r hr => (answers r hr).mono ?_) mark
    exact List.le_sum_of_mem (List.mem_map_of_mem hr)
  case run m e haux ends =>
    refine ⟨0, fun ⟨t, ht, hn⟩ => absurd hn (other ht haux), fun m' T hn haux' => ?_⟩
    have he := resolved.type_unique haux haux' hn
    have : e = .ref T := by
      simp only [TypeDef.auxiliary, TypeDef.mk.injEq, Origin.auxiliary.injEq] at he
      exact he.2.2.2
    exact ends (by simp [this, Element.type?])

end Regime

end BoltzmannSampling
