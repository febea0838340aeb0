import Mathlib
import BoltzmannSampling.Proofs.Sampler.Filling

/-!
Nodes under construction as attempts make them: what remains to be drawn stands for references of the constructor,
children are of declared types, and at most one continuation is put off, behind children that are all drawn.
-/

namespace BoltzmannSampling

namespace Frame

variable {tuned : Tuned} {order : DrawOrder} {f : Frame} {run refs : List String} {r : Run} {T : String}

def Idle (f : Frame) : Prop := f.run = none ∧ f.calls = [] ∧ f.slots = []

structure Valid (tuned : Tuned) (order : DrawOrder) (f : Frame) (run refs : List String) : Prop where
  run     : List.Forall₂ tuned.StandsFor run (f.run.toList.map Run.slot)
  slots   : List.Forall₂ tuned.StandsFor refs f.slots
  calls   : ∀ T ∈ f.calls, ∃ u ∈ tuned.system.userTypes, u.name = T
  single  : f.slots.Pairwise fun a b => a.continues → b.continues = false
  none    : f.hole = .none → f.after = [] ∨ f.Idle
  waiting : ∀ T, f.hole = .waiting T → (∃ u ∈ tuned.system.userTypes, u.name = T) ∧
    (order = .inPlace → ∀ slot ∈ f.slots, slot.continues = false)
  filling : f.hole = .filling → f.Idle

theorem busy_of_run (hr : f.run = some r) : ¬f.Idle :=
  fun idle => nomatch idle.1.symm.trans hr

theorem busy_of_calls {calls : List String} (hc : f.calls = T :: calls) : ¬f.Idle :=
  fun idle => nomatch idle.2.1.symm.trans hc

theorem busy_of_slots {slot : Slot} {slots : List Slot} (hs : f.slots = slot :: slots) : ¬f.Idle :=
  fun idle => nomatch idle.2.2.symm.trans hs

-- When a node does what, depending on what is left.
theorem action_spec (order : DrawOrder) (f : Frame) :
    match f.action order with
    | .draw r          => f.run = some r
    | .look slot slots => f.run = none ∧ f.slots = slot :: slots ∧ (order = .inPlace → f.calls = [])
    | .call T calls    => f.run = none ∧ f.calls = T :: calls ∧ (order = .ahead → f.slots = [])
    | .continue T      => f.Idle ∧ f.hole = .waiting T
    | .finish          => f.Idle ∧ f.hole.waits = [] := by
  have ending (idle : f.Idle) : match f.ending with
      | .continue T => f.Idle ∧ f.hole = .waiting T
      | .finish     => f.Idle ∧ f.hole.waits = []
      | _           => False := by
    cases hh : f.hole <;> simp [Frame.ending, hh, idle, Hole.waits]
  cases hr : f.run
  case some r => simp [action, hr]
  case none   =>
    cases order <;> cases hs : f.slots <;> cases hc : f.calls
    case ahead.nil.nil | inPlace.nil.nil =>
      have := ending ⟨hr, hc, hs⟩
      simp only [action, hr, looks, calling, hs, hc]
      split at this <;> simp_all
    all_goals simp [action, hr, looks, calling, hs, hc]

namespace Valid

theorem hole_of_busy (h : f.Valid tuned order run refs) (busy : ¬f.Idle) :
    f.hole = .none ∧ f.after = [] ∨ ∃ T, f.hole = .waiting T := by
  cases hh : f.hole
  case none      => exact .inl ⟨rfl, (h.none hh).resolve_right busy⟩
  case waiting T => exact .inr ⟨T, rfl⟩
  case filling   => exact absurd (h.filling hh) busy

-- While there is something to do, a node stays valid if its place for the continuation and what has been drawn since
-- stay as they are.
theorem keep {g : Frame} {run' refs' : List String} (h : f.Valid tuned order run refs) (busy : ¬f.Idle)
    (hole : g.hole = f.hole) (after : g.after = f.after) (fewer : g.slots.Sublist f.slots)
    (runs : List.Forall₂ tuned.StandsFor run' (g.run.toList.map Run.slot))
    (slots : List.Forall₂ tuned.StandsFor refs' g.slots)
    (calls : ∀ T ∈ g.calls, ∃ u ∈ tuned.system.userTypes, u.name = T) : g.Valid tuned order run' refs' where
  run     := runs
  slots   := slots
  calls   := calls
  single  := h.single.sublist fewer
  none hh := .inl <| after.trans <| (h.none (hole ▸ hh)).resolve_right busy
  waiting T hh :=
    have ⟨hu, hc⟩ := h.waiting T (hole ▸ hh)
    ⟨hu, fun ho slot hm => hc ho slot (fewer.subset hm)⟩
  filling hh := absurd (h.filling (hole ▸ hh)) busy

theorem more (h : f.Valid tuned order run refs) (hr : f.run = some r) :
    { f with run := some { r with count := r.count + 1 } }.Valid tuned order run refs := by
  have stands := h.run
  rw [hr] at stands
  exact h.keep (busy_of_run hr) rfl rfl (.refl _) stands h.slots h.calls

theorem endRun (resolved : tuned.system.Resolved) (h : f.Valid tuned order run refs) (hr : f.run = some r) :
    (f.endRun r).Valid tuned order [] refs := by
  have busy := busy_of_run hr
  have stands := h.run
  rw [hr] at stands
  cases stands
  case cons stands _ =>
    have ⟨_, m, _, haux⟩ := stands
    rw [Frame.endRun]
    cases he : r.element
    case atom  => exact h.keep busy rfl rfl (.refl _) .nil h.slots h.calls
    case ref T =>
      refine h.keep busy rfl rfl (.refl _) .nil h.slots fun T' hT => ?_
      cases List.mem_append.mp hT
      case inl hT => exact h.calls T' hT
      case inr hT =>
        rw [List.eq_of_mem_replicate hT]
        exact resolved.element m T (he ▸ haux)

-- The type of a run that begins, if one does.
def opened (ref : String) : Slot → List String
  | .child _ _ => []
  | .run _ _   => [ref]

theorem take {slot : Slot} {slots : List Slot} {ref : String} (h : f.Valid tuned order [] (ref :: refs))
    (hr : f.run = .none) (hs : f.slots = slot :: slots) :
    (f.take order slot slots).Valid tuned order (opened ref slot) refs := by
  have busy := busy_of_slots hs
  have fewer : slots.Sublist f.slots := hs ▸ List.sublist_cons_self ..
  have stands := h.slots
  rw [hs] at stands
  cases stands
  case cons stand stands =>
    cases slot
    case run p e   => exact h.keep busy rfl rfl fewer (.cons stand .nil) stands h.calls
    case child T c =>
      obtain ⟨hT, user⟩ := stand
      rw [Frame.take]
      split
      case isTrue hc =>
        have single := h.single
        rw [hs] at single
        obtain ⟨later, single⟩ := List.pairwise_cons.mp single
        exact
          { run     := by rw [hr]; exact .nil
            slots   := stands
            calls   := h.calls
            single  := single
            none    := fun hh => by simp at hh
            waiting := fun T' hh => by
              cases hh
              exact ⟨hT ▸ user, fun _ slot hm => later slot hm hc.1⟩
            filling := fun hh => by simp at hh }
      case isFalse =>
        refine h.keep busy rfl rfl fewer (by rw [hr]; exact .nil) stands fun T' hm => ?_
        cases List.mem_append.mp hm
        case inl hm => exact h.calls T' hm
        case inr hm => exact List.mem_singleton.mp hm ▸ hT ▸ user

theorem call {calls : List String} (h : f.Valid tuned order run refs) (hr : f.run = .none) (hc : f.calls = T :: calls)
    (c : Structure) : ({ f with calls }.receive c).Valid tuned order [] refs := by
  have busy := busy_of_calls hc
  have hcalls : ∀ T ∈ calls, ∃ u ∈ tuned.system.userTypes, u.name = T := fun T hT =>
    h.calls T <| hc ▸ List.mem_cons_of_mem _ hT
  cases h.hole_of_busy busy
  case inl hh =>
    obtain ⟨hh, ha⟩ := hh
    simp only [receive, hh]
    exact
      { run     := by simp only [hr]; exact .nil
        slots   := h.slots
        calls   := hcalls
        single  := h.single
        none    := fun _ => .inl ha
        waiting := fun T hT => by simp at hT
        filling := fun hT => by simp at hT }
  case inr hh =>
    obtain ⟨T, hh⟩ := hh
    simp only [receive, hh]
    exact
      { run     := by simp only [hr]; exact .nil
        slots   := h.slots
        calls   := hcalls
        single  := h.single
        none    := fun hT => by simp at hT
        waiting := hh ▸ h.waiting
        filling := fun hT => by simp at hT }

theorem «continue» (h : f.Valid tuned order run refs) (idle : f.Idle) (c : Structure) :
    ({ f with hole := .filling }.receive c).Valid tuned order [] refs where
  run     := by simp only [receive, idle.1]; exact .nil
  slots   := h.slots
  calls   := h.calls
  single  := h.single
  none    := fun _ => .inr idle
  waiting := fun T hT => by simp [receive] at hT
  filling := fun hT => by simp [receive] at hT

theorem frame (resolved : tuned.system.Resolved) {t : TypeDef} {c : Constructor Symbol} (ht : t ∈ tuned.system.types)
    (hc : c ∈ t.constructors) (mark : Nat) :
    (Attempt.frame mark t.name (tuned.plan t c)).Valid tuned order [] c.refs where
  run     := .nil
  slots   := tuned.plan_slots resolved ht hc
  calls   := by simp [Attempt.frame]
  single  := tuned.plan_single t c
  none    := fun _ => .inl rfl
  waiting := fun T hT => by simp [Attempt.frame] at hT
  filling := fun hT => by simp [Attempt.frame] at hT

end Valid

end Frame

end BoltzmannSampling
