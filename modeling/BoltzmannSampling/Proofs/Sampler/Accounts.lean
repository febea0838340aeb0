import Mathlib
import BoltzmannSampling.Proofs.Structure.Basic
import BoltzmannSampling.Sampler.Machine

/-!
The accounts of an attempt. Its counter holds the weights of all nodes built so far, and the atoms of the run being
drawn, which weigh in no node yet; it is never over the limit. Every step keeps the accounts, so that they are right
at the end, where the only node left is the root.
-/

namespace BoltzmannSampling

-- The atoms of a run, which its node takes over when the run ends.
def Run.atoms (r : Run) : Nat := r.count * r.element.atomSize

namespace Frame

variable {order : DrawOrder} {f : Frame} {r : Run}

def pending (f : Frame) : Nat := f.run.elim 0 Run.atoms

theorem close_size (f : Frame) :
    f.close.size = f.weight + (f.before.map Structure.size).sum + (f.after.map Structure.size).sum := by
  simp [close, Structure.size_node, Nat.add_assoc]

theorem close_length (f : Frame) :
    f.close.length = 1 + (f.before.map Structure.length).sum + (f.after.map Structure.length).sum := by
  simp [close, Structure.length_node, Nat.add_assoc]

theorem receive_size (f : Frame) (s : Structure) : (f.receive s).close.size = f.close.size + s.size := by
  simp only [close_size, receive]
  cases f.hole
  all_goals
    simp
    omega

theorem receive_length (f : Frame) (s : Structure) : (f.receive s).close.length = f.close.length + s.length := by
  simp only [close_length, receive]
  cases f.hole
  all_goals
    simp
    omega

theorem receive_run (f : Frame) (s : Structure) : (f.receive s).run = f.run := by
  rw [receive]
  cases f.hole <;> rfl

theorem receive_typeName (f : Frame) (s : Structure) : (f.receive s).typeName = f.typeName := by
  rw [receive]
  cases f.hole <;> rfl

theorem endRun_size (f : Frame) (r : Run) : (f.endRun r).close.size = f.close.size + r.atoms := by
  simp only [close_size, endRun, Run.atoms]
  cases r.element
  case ref  => simp [Element.atomSize]
  case atom => simp [Element.atomSize]; omega

theorem endRun_length (f : Frame) (r : Run) : (f.endRun r).close.length = f.close.length := by
  simp only [close_length, endRun]
  cases r.element <;> rfl

theorem endRun_typeName (f : Frame) (r : Run) : (f.endRun r).typeName = f.typeName := by
  rw [endRun]
  cases r.element <;> rfl

theorem endRun_pending (f : Frame) (r : Run) : (f.endRun r).pending = 0 := by
  rw [endRun]
  cases r.element <;> rfl

theorem take_close (f : Frame) (slot : Slot) (rest : List Slot) : (f.take order slot rest).close = f.close := by
  cases slot
  case child =>
    simp only [take]
    split <;> rfl
  case run => rfl

theorem take_pending (h : f.run = none) (slot : Slot) (rest : List Slot) : (f.take order slot rest).pending = 0 := by
  cases slot
  case child =>
    simp only [take]
    split <;> simp [pending, h]
  case run => simp [take, pending, Run.atoms]

theorem take_typeName (f : Frame) (slot : Slot) (rest : List Slot) :
    (f.take order slot rest).typeName = f.typeName := by
  cases slot
  case child =>
    simp only [take]
    split <;> rfl
  case run => rfl

theorem run_of_action_draw (h : f.action order = .draw r) : f.run = some r := by
  simp only [action, looks, calling, ending] at h
  grind

-- Whatever else a node does, it does between runs.
theorem run_of_action {x : Action} (h : f.action order = x) (hx : ∀ r, x ≠ .draw r) : f.run = none := by
  cases hr : f.run
  case none   => rfl
  case some r => exact absurd (by simp [← h, action, hr]) (hx r)

end Frame

namespace Attempt

variable {σ : Type} {D : Decider σ} {s : Sampler} {order : DrawOrder} {limit : Option Nat} {T : String}
variable {a b : Attempt σ} {found : Structure}

-- The nodes built so far, finished or not.
def built (a : Attempt σ) : List Structure :=
  a.stack.flatMap fun f => f.close.walk

-- The atoms of the run being drawn.
def pending (a : Attempt σ) : Nat :=
  a.stack.head?.elim 0 Frame.pending

structure Accounted (limit : Option Nat) (T : String) (a : Attempt σ) : Prop where
  size   : a.size = (a.built.map Structure.weight).sum + a.pending
  nodes  : a.nodes = a.built.length
  within : isOver limit a.size = false
  idle   : ∀ f ∈ a.stack.tail, f.run = none
  root   : ∀ f, a.stack.getLast? = some f → f.typeName = T

theorem enter_ne_done {typeName : String} : Attempt.enter D s limit a typeName ≠ .done found b := by
  simp only [Attempt.enter, Attempt.start]
  split <;> try split <;> try split
  all_goals simp

theorem built_weight (a : Attempt σ) :
    (a.built.map Structure.weight).sum = (a.stack.map fun f => f.close.size).sum := by
  have hs : (fun f : Frame => f.close.size) = List.sum ∘ List.map Structure.weight ∘ fun f => f.close.walk :=
    funext fun f => f.close.size_eq_sum
  rw [built, List.flatMap_def, List.map_flatten, List.sum_flatten, List.map_map, List.map_map, hs,
    Function.comp_assoc]

theorem built_length (a : Attempt σ) : a.built.length = (a.stack.map fun f => f.close.length).sum :=
  List.length_flatMap

theorem frame_size (mark : Nat) (typeName : String) (p : Plan) : (frame mark typeName p).close.size = p.weight := by
  simp [Frame.close_size, frame]

theorem frame_length (mark : Nat) (typeName : String) (p : Plan) : (frame mark typeName p).close.length = 1 := by
  simp [Frame.close_length, frame]

namespace Accounted

-- In terms of the frame on top and those below.
theorem cons_iff {source : σ} {size nodes : Nat} {f : Frame} {rest : List Frame} :
    Accounted limit T ⟨source, size, nodes, f :: rest⟩ ↔
      (size = f.close.size + (rest.map fun f => f.close.size).sum + f.pending ∧
        nodes = f.close.length + (rest.map fun f => f.close.length).sum ∧ isOver limit size = false) ∧
      (∀ g ∈ rest, g.run = none) ∧ ∀ g, (f :: rest).getLast? = some g → g.typeName = T := by
  constructor
  · intro ⟨hs, hn, hw, hi, hr⟩
    rw [built_weight] at hs
    rw [built_length] at hn
    exact ⟨⟨hs, hn, hw⟩, hi, hr⟩
  · intro ⟨⟨hs, hn, hw⟩, hi, hr⟩
    refine ⟨?_, ?_, hw, hi, hr⟩
    · rw [built_weight]
      exact hs
    · rw [built_length]
      exact hn

theorem replace {source : σ} {size nodes : Nat} {f g : Frame} {rest : List Frame}
    (h : Accounted limit T ⟨source, size, nodes, f :: rest⟩) (source' : σ) (atoms : Nat) (name : g.typeName = f.typeName)
    (length : g.close.length = f.close.length) (grown : g.close.size + g.pending = f.close.size + f.pending + atoms)
    (within : isOver limit (size + atoms) = false) :
    Accounted limit T ⟨source', size + atoms, nodes, g :: rest⟩ := by
  have ⟨⟨hs, hn, hw⟩, hi, hr⟩ := cons_iff.mp h
  refine cons_iff.mpr ⟨⟨by omega, by omega, within⟩, hi, fun e he => ?_⟩
  cases rest
  case nil =>
    cases he
    exact name.trans (hr f rfl)
  case cons => exact hr e he

theorem start {p : Plan} {typeName : String} (h : a.Accounted limit T) (quiet : ∀ f ∈ a.stack, f.run = none)
    (name : a.stack = [] → typeName = T) (hs : Attempt.start limit a typeName p = .running b) :
    b.Accounted limit T := by
  simp only [Attempt.start] at hs
  split at hs
  case isTrue => simp at hs
  case isFalse hw =>
    cases hs
    have hp : a.pending = 0 := by
      rw [Attempt.pending]
      cases he : a.stack
      case nil       => rfl
      case cons f fs => simp [Frame.pending, quiet f (by simp [he])]
    have hs := h.size
    have hn := h.nodes
    rw [built_weight, hp] at hs
    rw [built_length] at hn
    refine cons_iff.mpr ⟨⟨?_, ?_, by simpa using hw⟩, quiet, ?_⟩
    · rw [frame_size, hs, Nat.add_comm p.weight]
      rfl
    · rw [frame_length, hn, Nat.add_comm]
    · intro e he
      cases hl : a.stack
      case nil =>
        rw [hl] at he
        cases he
        exact name hl
      case cons =>
        rw [hl, List.getLast?_cons_cons, ← hl] at he
        exact h.root e he

theorem enter {typeName : String} (h : a.Accounted limit T) (quiet : ∀ f ∈ a.stack, f.run = none)
    (name : a.stack = [] → typeName = T) (hs : Attempt.enter D s limit a typeName = .running b) :
    b.Accounted limit T := by
  simp only [Attempt.enter] at hs
  split at hs
  case h_1 => simp at hs
  case h_2 d hd =>
    split at hs
    case h_1 p source _ => exact start (a := { a with source }) ⟨h.1, h.2, h.3, h.4, h.5⟩ quiet name hs
    case h_2 => simp at hs

theorem drawRun {source : σ} {size nodes : Nat} {f : Frame} {rest : List Frame} {r : Run}
    (h : Accounted limit T ⟨source, size, nodes, f :: rest⟩) (hr : f.run = some r)
    (hs : Attempt.drawRun D limit ⟨source, size, nodes, f :: rest⟩ f rest r = .running b) : b.Accounted limit T := by
  have hp : f.pending = r.atoms := by simp [Frame.pending, hr]
  simp only [Attempt.drawRun] at hs
  split at hs <;> try split at hs
  case h_1 | isTrue => simp at hs
  case isFalse hw =>
    cases hs
    refine h.replace _ r.element.atomSize rfl rfl ?_ (by simpa using hw)
    have hg : (r.count + 1) * r.element.atomSize = r.atoms + r.element.atomSize := Nat.succ_mul ..
    rw [hp, Nat.add_assoc, ← hg]
    rfl
  case h_3 =>
    cases hs
    refine h.replace _ 0 (f.endRun_typeName r) (f.endRun_length r) ?_ (cons_iff.mp h).1.2.2
    rw [f.endRun_size, f.endRun_pending, hp]

theorem finish {source : σ} {size nodes : Nat} {f : Frame} {rest : List Frame}
    (h : Accounted limit T ⟨source, size, nodes, f :: rest⟩) (hq : f.run = none)
    (hs : Attempt.finish ⟨source, size, nodes, f :: rest⟩ f rest = .running b) : b.Accounted limit T := by
  obtain ⟨⟨hz, hn, hw⟩, hi, hr⟩ := cons_iff.mp h
  simp only [Attempt.finish] at hs
  split at hs
  case h_1 => simp at hs
  case h_2 parent others =>
    cases hs
    obtain ⟨hp, ho⟩ := List.forall_mem_cons.mp hi
    simp only [List.map_cons, List.sum_cons, Frame.pending, hq, Option.elim_none] at hz hn
    refine cons_iff.mpr ⟨⟨?_, ?_, hw⟩, ho, fun e he => ?_⟩
    · simp [Frame.receive_size, Frame.pending, Frame.receive_run, hp]
      omega
    · simp [Frame.receive_length]
      omega
    · cases others
      case nil =>
        cases he
        exact (parent.receive_typeName _).trans (hr parent rfl)
      case cons => exact hr e he

theorem step (h : a.Accounted limit T) (hs : Attempt.step D s order limit a = .running b) :
    b.Accounted limit T := by
  obtain ⟨source, size, nodes, _ | ⟨f, rest⟩⟩ := a
  case nil => simp [Attempt.step] at hs
  case cons =>
    obtain ⟨⟨_, _, hw⟩, hi, _⟩ := cons_iff.mp h
    simp only [Attempt.step] at hs
    split at hs
    case h_1 r ha => exact h.drawRun (Frame.run_of_action_draw ha) hs
    case h_2 slot slots ha =>
      cases hs
      have hq := Frame.run_of_action ha (by simp)
      refine h.replace _ 0 (f.take_typeName ..) (by rw [f.take_close]) ?_ hw
      rw [f.take_close, Frame.take_pending hq]
      simp [Frame.pending, hq]
    case h_3 t calls ha =>
      have hq := Frame.run_of_action ha (by simp)
      have h' := h.replace (g := { f with calls }) source 0 rfl rfl rfl hw
      exact h'.enter (List.forall_mem_cons.mpr ⟨hq, hi⟩) (by simp) hs
    case h_4 t ha =>
      have hq := Frame.run_of_action ha (by simp)
      have h' := h.replace (g := { f with hole := .filling }) source 0 rfl rfl rfl hw
      exact h'.enter (List.forall_mem_cons.mpr ⟨hq, hi⟩) (by simp) hs
    case h_5 ha => exact h.finish (Frame.run_of_action ha (by simp)) hs

theorem steps {fuel : Nat} (h : a.Accounted limit T) (hs : Attempt.steps D s order limit fuel a = .running b) :
    b.Accounted limit T := by
  induction fuel generalizing a
  case zero =>
    cases hs
    exact h
  case succ hi =>
    rw [Attempt.steps] at hs
    split at hs
    case h_1 he => exact hi (h.step he) hs
    case h_2 hn => exact absurd hs (hn b)

-- An attempt begins with nothing.
theorem empty (limit : Option Nat) (T : String) (source : σ) : Accounted limit T ⟨source, 0, 0, []⟩ where
  size   := rfl
  nodes  := rfl
  within := by cases limit <;> simp [isOver]
  idle   := by simp
  root   := by simp

theorem draw {fuel : Nat} {source : σ} (hs : Attempt.draw D s order limit fuel source T = .running b) :
    b.Accounted limit T := by
  rw [Attempt.draw] at hs
  split at hs
  case h_1 he => exact steps ((empty limit T source).enter (by simp) (by simp) he) hs
  case h_2 hn => exact absurd hs (hn b)

-- A finished attempt has a single node left, whose run has ended.
theorem step_done (h : a.Accounted limit T) (hs : Attempt.step D s order limit a = .done found b) :
    found.typeName = T ∧ found.size = b.size ∧ isOver limit b.size = false := by
  obtain ⟨source, size, nodes, _ | ⟨f, rest⟩⟩ := a
  case nil => simp [Attempt.step] at hs
  case cons =>
    have ⟨⟨hz, _, hw⟩, _, hr⟩ := cons_iff.mp h
    simp only [Attempt.step] at hs
    split at hs
    case h_1 r _ =>
      simp only [Attempt.drawRun] at hs
      split at hs <;> try split at hs
      all_goals simp at hs
    case h_2 => simp at hs
    case h_3 | h_4 => exact absurd hs enter_ne_done
    case h_5 ha =>
      have hq := Frame.run_of_action ha (by simp)
      simp only [Attempt.finish] at hs
      split at hs
      case h_1 =>
        cases hs
        exact ⟨hr f rfl, by simpa [Frame.pending, hq] using hz.symm, hw⟩
      case h_2 => simp at hs

theorem steps_done {fuel : Nat} (h : a.Accounted limit T)
    (hs : Attempt.steps D s order limit fuel a = .done found b) :
    found.typeName = T ∧ found.size = b.size ∧ isOver limit b.size = false := by
  induction fuel generalizing a
  case zero => simp [Attempt.steps] at hs
  case succ hi =>
    rw [Attempt.steps] at hs
    split at hs
    case h_1 he => exact hi (h.step he) hs
    case h_2    => exact h.step_done hs

theorem draw_done {fuel : Nat} {source : σ} (hs : Attempt.draw D s order limit fuel source T = .done found b) :
    found.typeName = T ∧ found.size = b.size ∧ isOver limit b.size = false := by
  rw [Attempt.draw] at hs
  split at hs
  case h_1 he => exact steps_done ((empty limit T source).enter (by simp) (by simp) he) hs
  case h_2    => exact absurd hs enter_ne_done

end Accounted

end Attempt

end BoltzmannSampling
