import Mathlib
import BoltzmannSampling.Proofs.Sampler.Plans
import BoltzmannSampling.Proofs.Derivation.Auxiliary
import BoltzmannSampling.Proofs.Specification.Components

/-!
The plans of a rational system. No two references of a constructor stay in the component of its type, so that the
elements of a sequence or set lie below it. Hence an argument of a plan is the continuation exactly if it stays in the
component, and whatever else is walked for an argument lies below.
-/

namespace BoltzmannSampling

namespace Specification

variable {s : Specification} {t : TypeDef} {c : Constructor Symbol} {T : String} {m : Modifier}

theorem classify_of_check {allowUnsafe : Bool} {checked : Checked} (accepted : s.check allowUnsafe = .ok checked)
    (rational : checked.classification = .rational) : s.classify = .rational := by
  simp only [check] at accepted
  split at accepted
  case h_1 =>
    cases accepted
    exact rational
  case h_2 =>
    split at accepted <;> cases accepted
    cases rational

theorem refs_apart (resolved : s.Resolved) (rational : s.classify = .rational) (ht : t ∈ s.types)
    (hc : c ∈ t.constructors) : c.refs.Pairwise fun r r' =>
      ¬(s.referenceGraph.Connected t.name r ∧ s.referenceGraph.Connected t.name r') := by
  have single := single_of_rational resolved rational ht hc
  have none : (c.refs.filter (s.isOwn t)).Pairwise fun _ _ => False := by
    generalize c.refs.filter (s.isOwn t) = own at single
    match own, single with
    | [], _  => exact .nil
    | [_], _ => exact List.pairwise_singleton ..
  refine (List.pairwise_filter.mp none).imp_of_mem fun hr hr' apart both => ?_
  have known := resolved.refs t ht c hc
  exact apart ((isOwn_iff ht (known _ hr)).mpr both.1) ((isOwn_iff ht (known _ hr')).mpr both.2)

-- The elements of a sequence or set lie below it: else both references of its constructor would stay.
theorem above_element (resolved : s.Resolved) (rational : s.classify = .rational)
    (ht : .auxiliary m (.ref T) ∈ s.types) :
    s.referenceGraph.Above (TypeDef.auxiliaryName m (.ref T)) T := by
  have hc : Constructor.cons m (.ref T) ∈ (TypeDef.auxiliary m (.ref T)).constructors := by
    simp [Constructor.auxiliary_constructors]
  have refs : (Constructor.cons m (.ref T)).refs = [T, TypeDef.auxiliaryName m (.ref T)] := Constructor.cons_refs ..
  have apart := refs_apart resolved rational ht hc
  rw [refs, List.pairwise_pair] at apart
  have hT : T ∈ (Constructor.cons m (.ref T)).refs := refs ▸ List.mem_cons_self
  exact (above_or_connected ht hc hT).resolve_left fun same => apart ⟨same, .refl, .refl⟩

end Specification

namespace Slot

-- What is walked for an argument, seen from the type it belongs to: a continuation stays in the component, all else
-- leads below.
def Descends (g : Digraph String) (owner : String) : Slot → Prop
  | .child T true  => g.Connected owner T
  | .child T false => g.Above owner T
  | .run _ e       => ∀ T, e = .ref T → g.Above owner T

end Slot

namespace Sampler

-- Where one argument at most is a continuation, it is the last one.
theorem lastContinuation_eq {slots : List Slot}
    (single : slots.Pairwise fun a b => a.continues → b.continues = false) : lastContinuation slots = slots := by
  induction slots
  case nil               => rfl
  case cons slot rest hi =>
    have ⟨first, others⟩ := List.pairwise_cons.mp single
    cases slot
    case run       => rw [lastContinuation, hi others]
    case child T c =>
      have unfolded : lastContinuation (.child T c :: rest) =
          .child T (c && !rest.any Slot.continues) :: lastContinuation rest := rfl
      rw [unfolded, hi others]
      cases c
      case false => rfl
      case true  =>
        have later : rest.any Slot.continues = false :=
          List.any_eq_false.mpr fun slot hm => by rw [first slot hm rfl]; exact Bool.false_ne_true
        rw [later]
        rfl

end Sampler

namespace Tuned

variable {tuned : Tuned} {t u : TypeDef} {c : Constructor Symbol} {r T : String} {m : Modifier} {e : Element}

theorem slotOf_declared (resolved : tuned.system.Resolved) (ht : t ∈ tuned.system.types)
    (hu : u ∈ tuned.system.userTypes) : Sampler.slotOf tuned (Assoc.get? tuned.system.components) t u.name =
      .child u.name (tuned.system.isOwn t u.name) := by
  have ⟨hm, ha⟩ := List.mem_filter.mp hu
  have component {T : String} (hT : T ∈ tuned.system.names) :
      Assoc.get? tuned.system.components T = some (tuned.system.referenceGraph.representative T) :=
    Digraph.get?_components resolved.names hT
  obtain ⟨name, cs, origin⟩ := u
  cases origin
  case auxiliary => simp [TypeDef.isAuxiliary] at ha
  case declared  =>
    rw [Sampler.slotOf, resolved.type?_eq hm, component (Specification.name_mem_names hm),
      component (Specification.name_mem_names ht)]
    rfl

theorem slotOf_auxiliary (resolved : tuned.system.Resolved) {component : String → Option String}
    (hm : .auxiliary m e ∈ tuned.system.types) : Sampler.slotOf tuned component t (TypeDef.auxiliaryName m e) =
      .run (tuned.continuing (TypeDef.auxiliaryName m e)) e := by
  have found : tuned.system.type? (TypeDef.auxiliaryName m e) = some (.auxiliary m e) := resolved.type?_eq hm
  rw [Sampler.slotOf, found]
  rfl

-- A reference is to a declared type or to an auxiliary one.
theorem slotOf_cases (resolved : tuned.system.Resolved) (ht : t ∈ tuned.system.types)
    (hr : r ∈ tuned.system.names) :
    Sampler.slotOf tuned (Assoc.get? tuned.system.components) t r = .child r (tuned.system.isOwn t r) ∨
    ∃ m e, r = TypeDef.auxiliaryName m e ∧ .auxiliary m e ∈ tuned.system.types ∧
      Sampler.slotOf tuned (Assoc.get? tuned.system.components) t r = .run (tuned.continuing r) e := by
  obtain ⟨u, hu, rfl⟩ := Specification.mem_names.mp hr
  cases ha : u.isAuxiliary
  case false => exact .inl (slotOf_declared resolved ht (List.mem_filter.mpr ⟨hu, by simp [ha]⟩))
  case true  =>
    obtain ⟨m, e, ho⟩ := TypeDef.origin_of_isAuxiliary ha
    obtain rfl := resolved.auxiliary u hu m e ho
    exact .inr ⟨m, e, rfl, hu, slotOf_auxiliary resolved hu⟩

theorem slotOf_descends (resolved : tuned.system.Resolved) (rational : tuned.system.classify = .rational)
    (ht : t ∈ tuned.system.types) (hc : c ∈ t.constructors) (hr : r ∈ c.refs) :
    (Sampler.slotOf tuned (Assoc.get? tuned.system.components) t r).Descends tuned.system.referenceGraph t.name := by
  have known := resolved.refs t ht c hc r hr
  rcases slotOf_cases resolved ht known with child | ⟨m, e, rfl, hm, run⟩
  case inl =>
    have own := Specification.isOwn_iff ht known
    rw [child]
    cases ho : tuned.system.isOwn t r
    case true  => exact own.mp ho
    case false => exact (Specification.above_or_connected ht hc hr).resolve_left fun same => by simp [own.mpr same] at ho
  case inr =>
    rw [run]
    rintro T rfl
    have element := Specification.above_element resolved rational hm
    rcases Specification.above_or_connected ht hc hr with same | above
    · exact same.above element
    · exact above.trans element

theorem connected_of_continues (resolved : tuned.system.Resolved) (ht : t ∈ tuned.system.types)
    (hr : r ∈ tuned.system.names)
    (h : (Sampler.slotOf tuned (Assoc.get? tuned.system.components) t r).continues) :
    tuned.system.referenceGraph.Connected t.name r := by
  rcases slotOf_cases resolved ht hr with child | ⟨_, _, _, _, run⟩
  · rw [child] at h
    exact (Specification.isOwn_iff ht hr).mp h
  · rw [run] at h
    cases h

theorem slots_eq (resolved : tuned.system.Resolved) (rational : tuned.system.classify = .rational)
    (ht : t ∈ tuned.system.types) (hc : c ∈ t.constructors) :
    (tuned.plan t c).slots = c.refs.map (Sampler.slotOf tuned (Assoc.get? tuned.system.components) t) := by
  have known := resolved.refs t ht c hc
  refine Sampler.lastContinuation_eq <| List.pairwise_map.mpr ?_
  refine (Specification.refs_apart resolved rational ht hc).imp_of_mem fun hr hr' apart continues => ?_
  by_contra h
  exact apart ⟨connected_of_continues resolved ht (known _ hr) continues,
    connected_of_continues resolved ht (known _ hr') (by simpa using h)⟩

-- A plan of a constructor: its arguments stand for the references of the constructor, of which one at most stays in
-- the component, and it is the continuation.
structure Planned (tuned : Tuned) (t : TypeDef) (c : Constructor Symbol) (p : Plan) : Prop where
  apart    : c.refs.Pairwise fun r r' =>
    ¬(tuned.system.referenceGraph.Connected t.name r ∧ tuned.system.referenceGraph.Connected t.name r')
  stands   : List.Forall₂ tuned.StandsFor c.refs p.slots
  descends : ∀ slot ∈ p.slots, slot.Descends tuned.system.referenceGraph t.name

theorem planned (resolved : tuned.system.Resolved) (rational : tuned.system.classify = .rational)
    (ht : t ∈ tuned.system.types) (hc : c ∈ t.constructors) : tuned.Planned t c (tuned.plan t c) where
  apart    := Specification.refs_apart resolved rational ht hc
  stands   := tuned.plan_slots resolved ht hc
  descends := by
    rw [slots_eq resolved rational ht hc]
    exact List.forall_mem_map.mpr fun r hr => slotOf_descends resolved rational ht hc hr

theorem exists_type {d : Dispatch} (found : (Sampler.ofTuned tuned).dispatch? T = some d) :
    ∃ t ∈ tuned.system.types, t.name = T := by
  have ⟨row, hr, hd⟩ := List.mem_map.mp (List.mem_of_find?_eq_some found)
  have name := List.find?_some found
  rw [← hd] at name
  exact ⟨row.1, tuned.rows_types ▸ List.mem_map_of_mem hr, by simpa using name⟩

end Tuned

end BoltzmannSampling
