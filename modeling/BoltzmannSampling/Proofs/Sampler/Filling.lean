import Mathlib
import BoltzmannSampling.Proofs.Sampler.Accounts
import BoltzmannSampling.Proofs.Sampler.Turns

/-!
What a node under construction still needs: derivations for the children that are due, for the rest of its run, for
the arguments not yet looked at, and for a continuation put off. They make up the turns and the atoms that are left
and the structure that comes out, and each kind of step hands them on to the node as it is afterwards.
-/

namespace BoltzmannSampling

namespace Derivation

-- How many steps it takes to draw a derivation; a sequence or set takes a step for each of its turns.
def steps : Derivation → Nat
  | node t _ parts => if t.isAuxiliary then 1 + (parts.map steps).sum else 2 + parts.length + (parts.map steps).sum

theorem steps_node {t : TypeDef} (h : t.isAuxiliary = false) (c parts) :
    (node t c parts).steps = 2 + parts.length + (parts.map steps).sum := by
  rw [steps, if_neg (by simp [h])]

theorem steps_auxiliary {t : TypeDef} (h : t.isAuxiliary = true) (c parts) :
    (node t c parts).steps = 1 + (parts.map steps).sum := by
  rw [steps, if_pos h]

theorem steps_nil (m : Modifier) (e : Element) : (nil m e).steps = 1 := by
  simp [nil, steps_auxiliary (t := .auxiliary m e) rfl]

theorem steps_cons (m : Modifier) (e : Element) (elements : List Derivation) (rest : Derivation) :
    (cons m e elements rest).steps = 1 + ((elements.map steps).sum + rest.steps) := by
  simp [cons, steps_auxiliary (t := .auxiliary m e) rfl]

end Derivation

namespace Run

-- The children that the elements of a run so far will become; atoms become none.
def elements (r : Run) : List String :=
  r.element.type?.toList.flatMap (List.replicate r.count)

theorem elements_succ (r : Run) : { r with count := r.count + 1 }.elements = r.elements ++ r.element.type?.toList := by
  cases h : r.element
  case ref  => simp [elements, h, Element.type?, List.replicate_succ']
  case atom => simp [elements, h, Element.type?]

def slot (r : Run) : Slot := .run r.p r.element

end Run

namespace Frame

-- The children that are due, in the order in which they are drawn.
def due (f : Frame) : List String :=
  f.calls ++ f.run.elim [] Run.elements

end Frame

namespace Hole

def waits : Hole → List String
  | waiting T => [T]
  | _         => []

end Hole

structure Filling where
  due   : List Derivation
  run   : List Derivation
  parts : List Derivation
  held  : List Derivation

namespace Filling

-- A filling of a node whose run is of a type and whose arguments stand for references.
structure Fits (s : Specification) (f : Frame) (run refs : List String) (x : Filling) : Prop where
  due   : s.Forest f.due x.due
  run   : s.Forest run x.run
  parts : s.Forest refs x.parts
  held  : s.Forest f.hole.waits x.held

def all (x : Filling) : List Derivation :=
  x.held ++ x.due ++ x.run ++ x.parts

def turns (tuned : Tuned) (order : DrawOrder) (slots : List Slot) (x : Filling) : List Turn :=
  order.arrange (x.run.flatMap (·.runs tuned), x.run.flatMap (·.turns tuned order)) (x.due.flatMap (·.turns tuned order))
    (x.held.flatMap (·.turns tuned order)) slots (x.parts.map (Derivation.both tuned order))

def size (x : Filling) : Nat :=
  (x.all.map Derivation.size).sum

def steps (x : Filling) : Nat :=
  1 + x.parts.length + (x.all.map Derivation.steps).sum

-- The node that comes out. The place of a continuation is before the children drawn since it was put off.
def result (x : Filling) (f : Frame) : Structure :=
  .node 0 f.name f.typeName (f.weight + f.pending + ((x.run ++ x.parts).map Derivation.atoms).sum)
    (f.before.reverse.map Structure.unmarked ++ x.held.map Derivation.toStructure ++
      f.after.reverse.map Structure.unmarked ++ x.due.map Derivation.toStructure ++
      (x.run ++ x.parts).flatMap Derivation.children)

variable {tuned : Tuned} {order : DrawOrder} {f : Frame} {slots : List Slot} {d : Derivation}
variable {due run parts held elements : List Derivation}

theorem empty_result (h : f.run = none) : (⟨[], [], [], []⟩ : Filling).result f = f.close.unmarked := by
  simp [result, Frame.close, Frame.pending, h, Structure.unmarked_node]

-- One more element of a run.
theorem more_turns (m : Modifier) (e : Element) (h : ∀ d ∈ elements, d.type.isAuxiliary = false) :
    (⟨due, [.cons m e elements d], parts, held⟩ : Filling).turns tuned order slots =
      .again (tuned.continuing (TypeDef.auxiliaryName m e)) e true ::
        (⟨due ++ elements, [d], parts, held⟩ : Filling).turns tuned order slots := by
  cases order <;>
    simp [turns, DrawOrder.arrange, Derivation.runs_cons m e d h, Derivation.turns_cons]

theorem more_size (m : Modifier) (e : Element) :
    (⟨due, [.cons m e elements d], parts, held⟩ : Filling).size =
      e.atomSize + (⟨due ++ elements, [d], parts, held⟩ : Filling).size := by
  simp [size, all, Derivation.size_cons]
  omega

theorem more_steps (m : Modifier) (e : Element) :
    (⟨due, [.cons m e elements d], parts, held⟩ : Filling).steps =
      (⟨due ++ elements, [d], parts, held⟩ : Filling).steps + 1 := by
  simp [steps, all, Derivation.steps_cons]
  omega

theorem more_result {r : Run} (hr : f.run = some r) (m : Modifier)
    (h : ∀ d ∈ elements, d.type.isAuxiliary = false) :
    (⟨due, [.cons m r.element elements d], parts, held⟩ : Filling).result f =
      (⟨due ++ elements, [d], parts, held⟩ : Filling).result { f with run := some { r with count := r.count + 1 } } := by
  simp [result, Frame.pending, hr, Run.atoms, Derivation.atoms_cons m r.element d h,
    Derivation.children_cons m r.element d h, Nat.succ_mul]
  omega

-- The end of a run.
theorem end_turns (m : Modifier) (e : Element) :
    (⟨due, [.nil m e], parts, held⟩ : Filling).turns tuned order slots =
      .again (tuned.continuing (TypeDef.auxiliaryName m e)) e false ::
        (⟨due, [], parts, held⟩ : Filling).turns tuned order slots := by
  cases order <;> simp [turns, DrawOrder.arrange, Derivation.runs_nil, Derivation.turns_nil]

theorem end_size (m : Modifier) (e : Element) :
    (⟨due, [.nil m e], parts, held⟩ : Filling).size = (⟨due, [], parts, held⟩ : Filling).size := by
  simp [size, all, Derivation.size_nil]

theorem end_steps (m : Modifier) (e : Element) :
    (⟨due, [.nil m e], parts, held⟩ : Filling).steps = (⟨due, [], parts, held⟩ : Filling).steps + 1 := by
  simp [steps, all, Derivation.steps_nil]
  omega

theorem end_result {r : Run} (hr : f.run = some r) (m : Modifier) (e : Element) :
    (⟨due, [.nil m e], parts, held⟩ : Filling).result f =
      (⟨due, [], parts, held⟩ : Filling).result (f.endRun r) := by
  have hp := f.endRun_pending r
  have hw : (f.endRun r).weight = f.weight + f.pending := by
    simp only [Frame.endRun, Frame.pending, hr, Option.elim_some, Run.atoms]
    cases r.element <;> rfl
  have hs : (f.endRun r).name = f.name ∧ (f.endRun r).typeName = f.typeName ∧ (f.endRun r).before = f.before ∧
      (f.endRun r).after = f.after := by
    simp only [Frame.endRun]
    cases r.element <;> exact ⟨rfl, rfl, rfl, rfl⟩
  simp [result, hp, hw, hs, Derivation.atoms_nil, Derivation.children_nil]

-- A run begins.
theorem run_turns {p : Float} {e : Element} (h : order = .inPlace → due = []) :
    (⟨due, [], d :: parts, held⟩ : Filling).turns tuned order (.run p e :: slots) =
      (⟨due, [d], parts, held⟩ : Filling).turns tuned order slots := by
  cases order
  case ahead   => simp [turns, DrawOrder.arrange, Derivation.both]
  case inPlace =>
    simp [turns, DrawOrder.arrange, DrawOrder.early, DrawOrder.late, Derivation.both, Slot.continues, h rfl]

theorem run_size : (⟨due, [], d :: parts, held⟩ : Filling).size = (⟨due, [d], parts, held⟩ : Filling).size := by
  simp [size, all]

theorem run_steps : (⟨due, [], d :: parts, held⟩ : Filling).steps = (⟨due, [d], parts, held⟩ : Filling).steps + 1 := by
  simp [steps, all]
  omega

theorem run_result (h : f.run = none) (p : Float) (e : Element) :
    (⟨due, [], d :: parts, held⟩ : Filling).result f =
      (⟨due, [d], parts, held⟩ : Filling).result { f with slots, run := some ⟨0, p, e⟩ } := by
  simp [result, Frame.pending, h, Run.atoms]

-- A child becomes due.
theorem child_turns {T : String} {c : Bool} (declared : d.type.isAuxiliary = false)
    (h : order = .inPlace → due = [] ∧ c = false) :
    (⟨due, [], d :: parts, held⟩ : Filling).turns tuned order (.child T c :: slots) =
      (⟨due ++ [d], [], parts, held⟩ : Filling).turns tuned order slots := by
  cases order
  case ahead   => simp [turns, DrawOrder.arrange, Derivation.both, Derivation.runs_declared declared]
  case inPlace =>
    obtain ⟨hd, hc⟩ := h rfl
    simp [turns, DrawOrder.arrange, DrawOrder.early, DrawOrder.late, Derivation.both, Slot.continues, hd, hc,
      Derivation.runs_declared declared]

theorem child_size :
    (⟨due, [], d :: parts, held⟩ : Filling).size = (⟨due ++ [d], [], parts, held⟩ : Filling).size := by
  simp [size, all]

theorem child_steps :
    (⟨due, [], d :: parts, held⟩ : Filling).steps = (⟨due ++ [d], [], parts, held⟩ : Filling).steps + 1 := by
  simp [steps, all]
  omega

theorem child_result {calls : List String} (declared : d.type.isAuxiliary = false) :
    (⟨due, [], d :: parts, held⟩ : Filling).result f =
      (⟨due ++ [d], [], parts, held⟩ : Filling).result { f with slots, calls } := by
  simp [result, Frame.pending, Derivation.atoms_declared declared, Derivation.children_declared declared]

-- A continuation is put off.
theorem hold_turns {T : String} (declared : d.type.isAuxiliary = false) :
    (⟨[], [], d :: parts, []⟩ : Filling).turns tuned .inPlace (.child T true :: slots) =
      (⟨[], [], parts, [d]⟩ : Filling).turns tuned .inPlace slots := by
  simp [turns, DrawOrder.arrange, DrawOrder.early, DrawOrder.late, Derivation.both, Slot.continues,
    Derivation.runs_declared declared]

theorem hold_size : (⟨[], [], d :: parts, []⟩ : Filling).size = (⟨[], [], parts, [d]⟩ : Filling).size := by
  simp [size, all]

theorem hold_steps : (⟨[], [], d :: parts, []⟩ : Filling).steps = (⟨[], [], parts, [d]⟩ : Filling).steps + 1 := by
  simp [steps, all]
  omega

theorem hold_result {T : String} (declared : d.type.isAuxiliary = false) (h : f.after = []) :
    (⟨[], [], d :: parts, []⟩ : Filling).result f =
      (⟨[], [], parts, [d]⟩ : Filling).result { f with slots, hole := .waiting T } := by
  simp [result, Frame.pending, Derivation.atoms_declared declared, Derivation.children_declared declared, h]

-- A child is drawn.
theorem call_turns (h : order = .ahead → slots = []) (hl : slots.length = parts.length) :
    (⟨d :: due, [], parts, held⟩ : Filling).turns tuned order slots =
      d.turns tuned order ++ (⟨due, [], parts, held⟩ : Filling).turns tuned order slots := by
  cases order
  case inPlace => simp [turns, DrawOrder.arrange]
  case ahead   =>
    have hp : parts = [] := List.length_eq_zero_iff.mp (by rw [← hl, h rfl, List.length_nil])
    simp [turns, DrawOrder.arrange, hp]

theorem call_size : (⟨d :: due, [], parts, held⟩ : Filling).size = d.size + (⟨due, [], parts, held⟩ : Filling).size := by
  simp [size, all]
  omega

theorem call_steps :
    (⟨d :: due, [], parts, held⟩ : Filling).steps = d.steps + (⟨due, [], parts, held⟩ : Filling).steps := by
  simp [steps, all]
  omega

theorem call_result {c : Structure} {calls : List String} (hc : c.unmarked = d.toStructure)
    (h : f.hole = .none ∧ f.after = [] ∧ held = [] ∨ ∃ T, f.hole = .waiting T) :
    (⟨d :: due, [], parts, held⟩ : Filling).result f =
      (⟨due, [], parts, held⟩ : Filling).result ({ f with calls }.receive c) := by
  cases h
  case inl h =>
    obtain ⟨hh, ha, hs⟩ := h
    simp [result, Frame.receive, Frame.pending, hh, ha, hs, hc]
  case inr h =>
    obtain ⟨T, hh⟩ := h
    simp [result, Frame.receive, Frame.pending, hh, hc]

-- A continuation is drawn.
theorem continue_turns :
    (⟨[], [], [], [d]⟩ : Filling).turns tuned order [] =
      d.turns tuned order ++ (⟨[], [], [], []⟩ : Filling).turns tuned order [] := by
  cases order <;> simp [turns, DrawOrder.arrange, DrawOrder.early, DrawOrder.late]

theorem continue_size : (⟨[], [], [], [d]⟩ : Filling).size = d.size + (⟨[], [], [], []⟩ : Filling).size := by
  simp [size, all]

theorem continue_steps : (⟨[], [], [], [d]⟩ : Filling).steps = d.steps + (⟨[], [], [], []⟩ : Filling).steps := by
  simp [steps, all]
  omega

theorem continue_result {c : Structure} (hc : c.unmarked = d.toStructure) :
    (⟨[], [], [], [d]⟩ : Filling).result f =
      (⟨[], [], [], []⟩ : Filling).result ({ f with hole := .filling }.receive c) := by
  simp [result, Frame.receive, Frame.pending, hc]

-- A node begins.
theorem frame_turns {t : TypeDef} (h : t.isAuxiliary = false) (c : Constructor Symbol) :
    (Derivation.node t c parts).turns tuned order =
      tuned.pick t c ++ (⟨[], [], parts, []⟩ : Filling).turns tuned order (tuned.plan t c).slots := by
  rw [Derivation.turns_node h]
  rfl

theorem frame_size (t : TypeDef) (c : Constructor Symbol) :
    (Derivation.node t c parts).size = c.size + (⟨[], [], parts, []⟩ : Filling).size := by
  simp [size, all, Derivation.size_node]

theorem frame_steps {t : TypeDef} (h : t.isAuxiliary = false) (c : Constructor Symbol) :
    (Derivation.node t c parts).steps = (⟨[], [], parts, []⟩ : Filling).steps + 1 := by
  simp [steps, all, Derivation.steps_node h]
  omega

theorem frame_result (t : TypeDef) (c : Constructor Symbol) (mark : Nat) :
    (Derivation.node t c parts).toStructure =
      (⟨[], [], parts, []⟩ : Filling).result (Attempt.frame mark t.name (tuned.plan t c)) := by
  simp [result, Attempt.frame, Frame.pending, Derivation.toStructure]
  exact ⟨rfl, rfl⟩

-- What a node needs does not depend on the children it has.
theorem fits_receive {s : Specification} {run refs : List String} {x : Filling} (c : Structure) :
    x.Fits s (f.receive c) run refs ↔ x.Fits s f run refs := by
  have hd : (f.receive c).due = f.due := by
    rw [Frame.receive]
    cases f.hole <;> rfl
  have hh : (f.receive c).hole.waits = f.hole.waits := by
    rw [Frame.receive]
    cases f.hole <;> rfl
  constructor
  · intro h
    exact ⟨hd ▸ h.due, h.run, h.parts, hh ▸ h.held⟩
  · intro h
    exact ⟨hd ▸ h.due, h.run, h.parts, hh ▸ h.held⟩

theorem result_receive (x : Filling) (f : Frame) (c : Structure) :
    x.result (f.receive c.unmarked) = x.result (f.receive c) := by
  simp only [result, Frame.receive, Frame.pending]
  cases f.hole <;> simp [Structure.unmarked_unmarked]

end Filling

end BoltzmannSampling
