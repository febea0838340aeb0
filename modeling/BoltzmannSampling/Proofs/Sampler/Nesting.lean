import Mathlib
import BoltzmannSampling.Proofs.Sampler.Advance
import BoltzmannSampling.Proofs.Sampler.Continuations

/-!
The walks of an attempt at a rational system. A walk goes on from a node to its continuation and stays in one
component of the reference graph. Every other child, and every element of a run, begins a walk of its own, which lies
in a component below. So no more walks are ever under way at once than there are components.
-/

namespace BoltzmannSampling

namespace Hole

def isFilling : Hole → Bool
  | filling => true
  | _       => false

end Hole

namespace Frame

variable {s : Specification} {f : Frame} {rest stack : List Frame} {r : Run}

-- The walks under way, the innermost first, each with its nodes, the last one first. A node goes on with the walk of
-- the node below if it fills the place of the continuation there, and begins a walk otherwise.
def walks (stack : List Frame) : List (List Frame) := stack.splitBy fun _ lower => lower.hole.isFilling

-- Whatever is left to walk for a node leads below, but for the continuation.
structure Descends (s : Specification) (f : Frame) : Prop where
  known   : f.typeName ∈ s.names
  calls   : ∀ T ∈ f.calls, s.referenceGraph.Above f.typeName T
  run     : ∀ r, f.run = some r → r.slot.Descends s.referenceGraph f.typeName
  slots   : ∀ slot ∈ f.slots, slot.Descends s.referenceGraph f.typeName
  waits   : ∀ T ∈ f.hole.waits, s.referenceGraph.Connected f.typeName T

-- Nodes in one walk are of one component, and a walk begins below the node that it is for.
def Over (s : Specification) (f lower : Frame) : Prop :=
  if lower.hole.isFilling then s.referenceGraph.Connected lower.typeName f.typeName
  else s.referenceGraph.Above lower.typeName f.typeName

namespace Descends

theorem endRun (h : f.Descends s) (hr : f.run = some r) : (f.endRun r).Descends s := by
  rw [Frame.endRun]
  cases he : r.element
  case atom  => exact ⟨h.known, h.calls, by simp, h.slots, h.waits⟩
  case ref T =>
    refine ⟨h.known, fun T' hT => ?_, by simp, h.slots, h.waits⟩
    cases List.mem_append.mp hT
    case inl hT => exact h.calls T' hT
    case inr hT => exact List.eq_of_mem_replicate hT ▸ h.run r hr T he

theorem take {slot : Slot} {slots : List Slot} (h : f.Descends s) (hr : f.run = none) (hs : f.slots = slot :: slots) :
    (f.take .inPlace slot slots).Descends s := by
  have ⟨first, later⟩ := List.forall_mem_cons.mp (hs ▸ h.slots)
  have run : ∀ r, f.run = some r → r.slot.Descends s.referenceGraph f.typeName := by simp [hr]
  cases slot
  case run p e =>
    refine ⟨h.known, h.calls, fun r he => ?_, later, h.waits⟩
    cases he
    exact first
  case child T c =>
    cases c
    case true  =>
      exact ⟨h.known, h.calls, run, later, fun T' hT => List.mem_singleton.mp hT ▸ first⟩
    case false =>
      refine ⟨h.known, fun T' hT => ?_, run, later, h.waits⟩
      cases List.mem_append.mp hT
      case inl hT => exact h.calls T' hT
      case inr hT => exact List.mem_singleton.mp hT ▸ first

theorem receive (h : f.Descends s) (c : Structure) : (f.receive c).Descends s where
  known := f.receive_typeName c ▸ h.known
  calls := f.receive_typeName c ▸ f.calls_receive c ▸ h.calls
  run   := f.receive_typeName c ▸ f.receive_run c ▸ h.run
  slots := f.receive_typeName c ▸ f.slots_receive c ▸ h.slots
  waits := f.receive_typeName c ▸ f.waits_receive c ▸ h.waits

theorem frame {tuned : Tuned} {t : TypeDef} {c : Constructor Symbol} (resolved : tuned.system.Resolved)
    (rational : tuned.system.classify = .rational) (ht : t ∈ tuned.system.types) (hc : c ∈ t.constructors)
    (mark : Nat) : (Attempt.frame mark t.name (tuned.plan t c)).Descends tuned.system where
  known   := Specification.name_mem_names ht
  calls   := by simp [Attempt.frame]
  run     := by simp [Attempt.frame]
  slots   := (Tuned.planned resolved rational ht hc).descends
  waits   := by simp [Attempt.frame, Hole.waits]

end Descends

theorem receive_not_filling (f : Frame) (c : Structure) : (f.receive c).hole.isFilling = false := by
  rw [receive]
  cases f.hole <;> simp [Hole.isFilling]

theorem take_not_filling {slot : Slot} {slots : List Slot} {order : DrawOrder} (h : f.hole.isFilling = false) :
    (f.take order slot slots).hole.isFilling = false := by
  cases slot
  case run   => exact h
  case child =>
    rw [take]
    split
    · rfl
    · exact h

theorem endRun_hole (f : Frame) (r : Run) : (f.endRun r).hole = f.hole := by
  rw [endRun]
  cases r.element <;> rfl

-- What a node is over is told by its type.
theorem chain_replace {g : Frame} (h : (f :: rest).IsChain (Over s)) (name : g.typeName = f.typeName) :
    (g :: rest).IsChain (Over s) := by
  have ⟨first, chain⟩ := List.isChain_cons.mp h
  refine List.isChain_cons.mpr ⟨fun lower hl => ?_, chain⟩
  have := first lower hl
  rwa [Over, ← name] at this

-- Nodes under construction, each over the one below.
structure Nested (s : Specification) (stack : List Frame) : Prop where
  descends : ∀ f ∈ stack, f.Descends s
  chain    : stack.IsChain (Over s)
  top      : ∀ f ∈ stack.head?, f.hole.isFilling = false

namespace Nested

theorem replace {g : Frame} (h : Nested s (f :: rest)) (name : g.typeName = f.typeName) (descends : g.Descends s)
    (top : g.hole.isFilling = false) : Nested s (g :: rest) where
  descends := List.forall_mem_cons.mpr ⟨descends, (List.forall_mem_cons.mp h.descends).2⟩
  chain    := chain_replace h.chain name
  top      := by simpa using top

theorem begin {tuned : Tuned} {t : TypeDef} {c : Constructor Symbol} {mark : Nat} (resolved : tuned.system.Resolved)
    (rational : tuned.system.classify = .rational) (ht : t ∈ tuned.system.types) (hc : c ∈ t.constructors)
    (descends : ∀ f ∈ stack, f.Descends tuned.system) (chain : stack.IsChain (Over tuned.system))
    (begins : ∀ lower ∈ stack.head?, Over tuned.system (Attempt.frame mark t.name (tuned.plan t c)) lower) :
    Nested tuned.system (Attempt.frame mark t.name (tuned.plan t c) :: stack) where
  descends := List.forall_mem_cons.mpr ⟨.frame resolved rational ht hc mark, descends⟩
  chain    := List.isChain_cons.mpr ⟨begins, chain⟩
  top      := by simp [Attempt.frame, Hole.isFilling]

theorem nonempty_walk {w : List Frame} (hw : w ∈ walks stack) : w ≠ [] := List.ne_nil_of_mem_splitBy hw

-- The chain of all nodes, walk by walk.
theorem chain_walks (h : Nested s stack) : (∀ w ∈ walks stack, w.IsChain (Over s)) ∧
    (walks stack).IsChain fun inner outer => ∀ f ∈ inner.getLast?, ∀ lower ∈ outer.head?, Over s f lower := by
  refine (List.isChain_flatten fun empty => nonempty_walk empty rfl).mp ?_
  rw [walks, List.flatten_splitBy]
  exact h.chain

-- Nodes of one walk are of one component.
theorem same_walk (h : Nested s stack) :
    ∀ w ∈ walks stack, ∀ f ∈ w, ∀ g ∈ w, s.referenceGraph.Connected f.typeName g.typeName := by
  intro w hw f hf g hg
  let Goes (f lower : Frame) : Prop := s.referenceGraph.Connected lower.typeName f.typeName
  have trans : Trans Goes Goes Goes := ⟨fun h h' => h'.trans h⟩
  have symm : Std.Symm Goes := ⟨fun _ _ h => h.symm⟩
  have goes : w.IsChain Goes := List.isChain_iff_forall_rel_of_append_cons_cons.mpr fun f lower _ _ hl => by
    have fills := List.isChain_iff_forall_rel_of_append_cons_cons.mp (List.isChain_of_mem_splitBy hw) hl
    have joined := List.isChain_iff_forall_rel_of_append_cons_cons.mp (h.chain_walks.1 w hw) hl
    rwa [Over, if_pos fills] at joined
  exact goes.pairwise.forall_of_forall (fun _ _ => ⟨.refl, .refl⟩) hg hf

-- A walk lies below those that it is nested in.
theorem lower_walk (h : Nested s stack) : (walks stack).Pairwise fun inner outer =>
    ∀ f ∈ inner, ∀ g ∈ outer, s.referenceGraph.Above g.typeName f.typeName := by
  let Below (inner outer : List Frame) : Prop :=
    outer ≠ [] ∧ ∀ f ∈ inner, ∀ g ∈ outer, s.referenceGraph.Above g.typeName f.typeName
  have trans : Trans Below Below Below := by
    refine ⟨fun ⟨ne, below⟩ ⟨ne', below'⟩ => ⟨ne', fun f hf g hg => ?_⟩⟩
    exact (below' _ (List.head_mem ne) g hg).trans (below f hf _ (List.head_mem ne))
  have below : (walks stack).IsChain Below := List.isChain_iff_forall_rel_of_append_cons_cons.mpr
    fun inner outer _ _ hl => by
    have hi : inner ∈ walks stack := by simp [hl]
    have ho : outer ∈ walks stack := by simp [hl]
    have ⟨ne, ne', begins⟩ :=
      List.isChain_iff_forall_rel_of_append_cons_cons.mp (List.isChain_getLast_head_splitBy _ stack) hl
    have first := List.isChain_iff_forall_rel_of_append_cons_cons.mp h.chain_walks.2 hl _
      (List.getLast_mem_getLast? ne) _ (List.head_mem_head? ne')
    rw [Over, if_neg (by simp [begins])] at first
    refine ⟨ne', fun f hf g hg => ?_⟩
    have above := (h.same_walk outer ho g hg _ (List.head_mem ne')).above first
    exact above.connected (h.same_walk inner hi _ (List.getLast_mem ne) f hf)
  exact below.pairwise.imp And.right

-- One type for each walk makes a descent through the components.
theorem length_walks_le (h : Nested s stack) (resolved : s.Resolved) : (walks stack).length ≤ s.componentCount := by
  let types := (walks stack).pmap (fun w ne => (w.head ne).typeName) fun w hw => nonempty_walk hw
  have mem {w : List Frame} (hw : w ∈ walks stack) {f : Frame} (hf : f ∈ w) : f ∈ stack := by
    rw [← List.flatten_splitBy (fun _ lower => lower.hole.isFilling) stack]
    exact List.mem_flatten_of_mem hw hf
  have known : ∀ T ∈ types.reverse, T ∈ s.names := by
    intro T hT
    obtain ⟨w, hw, rfl⟩ := List.mem_pmap.mp (List.mem_reverse.mp hT)
    exact (h.descends _ (mem hw (List.head_mem _))).known
  have descends : types.reverse.Pairwise s.referenceGraph.Above := by
    refine List.pairwise_reverse.mpr <| (List.pairwise_pmap _).mpr <| h.lower_walk.imp fun below ne ne' => ?_
    exact below _ (List.head_mem ne) _ (List.head_mem ne')
  have := Specification.length_le_componentCount resolved known descends
  simpa [types] using this

-- A walk that begins on top is one more.
theorem length_walks_lt {T : String} (h : Nested s (f :: rest)) (resolved : s.Resolved)
    (above : s.referenceGraph.Above f.typeName T) : (walks (f :: rest)).length < s.componentCount := by
  have known := Specification.known_of_leadsTo resolved (h.descends f List.mem_cons_self).known above.1
  have top : f.hole.isFilling = false := h.top f rfl
  let g : Frame := ⟨0, "", T, 0, [], .none, [], [], [], none⟩
  have descends : g.Descends s := ⟨known, by simp [g], by simp [g], by simp [g], by simp [g, Hole.waits]⟩
  have nested : Nested s (g :: f :: rest) :=
    { descends := List.forall_mem_cons.mpr ⟨descends, h.descends⟩
      chain    := List.isChain_cons.mpr ⟨by simpa [Over, top] using above, h.chain⟩
      top      := by simp [g, Hole.isFilling] }
  have more : walks (g :: f :: rest) = [g] :: walks (f :: rest) :=
    List.splitBy_append_cons (l := [g]) rest (by simp [top])
  have := nested.length_walks_le resolved
  rwa [more, List.length_cons] at this

end Nested

end Frame

namespace Attempt

variable {σ : Type} {D : Decider σ} {tuned : Tuned} {limit : Option Nat} {a b : Attempt σ} {T : String}

-- A node that is begun is of a constructor of its type.
theorem enter_running (resolved : tuned.system.Resolved) (h : enter D (.ofTuned tuned) limit a T = .running b) :
    ∃ t ∈ tuned.system.types, t.name = T ∧ ∃ c ∈ t.constructors,
      b.stack = frame a.nodes t.name (tuned.plan t c) :: a.stack := by
  rw [enter] at h
  split at h
  case h_1 => cases h
  case h_2 d found =>
    obtain ⟨t, ht, rfl⟩ := Tuned.exists_type found
    obtain rfl : tuned.dispatch t = d := Option.some.inj <| (tuned.dispatch?_eq resolved ht).symm.trans found
    split at h
    case h_2 => cases h
    case h_1 p source hp =>
      obtain ⟨c, hc, rfl, _⟩ := (Tuned.plan_eq_some resolved ht).mp hp
      rw [start] at h
      split at h <;> cases h
      exact ⟨t, ht, rfl, c, hc, rfl⟩

theorem drawRun_running {f : Frame} {rest : List Frame} {r : Run} (h : drawRun D limit a f rest r = .running b) :
    b.stack = { f with run := some { r with count := r.count + 1 } } :: rest ∨ b.stack = f.endRun r :: rest := by
  simp only [drawRun] at h
  split at h
  case h_1 => cases h
  case h_2 =>
    split at h <;> cases h
    exact .inl rfl
  case h_3 =>
    cases h
    exact .inr rfl

-- What a node does next: its continuation stays in the component, and all else leads below.
theorem action_descends {s : Specification} {f : Frame} (h : f.Descends s) :
    match f.action .inPlace with
    | .call T _    => s.referenceGraph.Above f.typeName T
    | .continue T  => s.referenceGraph.Connected f.typeName T
    | _            => True := by
  have spec := Frame.action_spec .inPlace f
  cases ha : f.action .inPlace <;> simp only [ha] at spec
  case draw | look | finish => trivial
  case call T calls         => exact h.calls T (spec.2.1 ▸ List.mem_cons_self)
  case «continue» T         => exact h.waits T (by simp [spec.2, Hole.waits])

theorem enter_nested (resolved : tuned.system.Resolved) (rational : tuned.system.classify = .rational)
    (descends : ∀ f ∈ a.stack, f.Descends tuned.system) (chain : a.stack.IsChain (Frame.Over tuned.system))
    (begins : ∀ f ∈ a.stack.head?, if f.hole.isFilling then tuned.system.referenceGraph.Connected f.typeName T
      else tuned.system.referenceGraph.Above f.typeName T)
    (h : enter D (.ofTuned tuned) limit a T = .running b) : Frame.Nested tuned.system b.stack := by
  obtain ⟨t, ht, rfl, c, hc, hb⟩ := enter_running resolved h
  rw [hb]
  exact .begin resolved rational ht hc descends chain begins

theorem drawRun_nested {f : Frame} {rest : List Frame} {r : Run} (h : Frame.Nested tuned.system (f :: rest))
    (hr : f.run = some r) (hs : drawRun D limit a f rest r = .running b) : Frame.Nested tuned.system b.stack := by
  have first : f.Descends tuned.system := h.descends f List.mem_cons_self
  have top : f.hole.isFilling = false := h.top f rfl
  cases drawRun_running hs
  case inl hb =>
    rw [hb]
    refine h.replace rfl ⟨first.known, first.calls, fun r' hr' => ?_, first.slots, first.waits⟩ top
    cases hr'
    exact first.run r hr
  case inr hb =>
    rw [hb]
    exact h.replace (f.endRun_typeName r) (first.endRun hr) (f.endRun_hole r ▸ top)

theorem finish_nested {f : Frame} {rest : List Frame} (h : Frame.Nested tuned.system (f :: rest))
    (hs : finish a f rest = .running b) : Frame.Nested tuned.system b.stack := by
  obtain ⟨_, below⟩ := List.forall_mem_cons.mp h.descends
  cases rest
  case nil                => cases hs
  case cons parent others =>
    cases hs
    obtain ⟨lower, below⟩ := List.forall_mem_cons.mp below
    exact ⟨List.forall_mem_cons.mpr ⟨lower.receive _, below⟩,
      Frame.chain_replace h.chain.tail (parent.receive_typeName _), by simp [parent.receive_not_filling]⟩

theorem step_nested (resolved : tuned.system.Resolved) (rational : tuned.system.classify = .rational)
    (h : Frame.Nested tuned.system a.stack) (hs : step D (.ofTuned tuned) .inPlace limit a = .running b) :
    Frame.Nested tuned.system b.stack := by
  rw [step] at hs
  split at hs
  case h_1 => cases hs
  case h_2 f rest hstack =>
    rw [hstack] at h
    obtain ⟨first, below⟩ := List.forall_mem_cons.mp h.descends
    have top : f.hole.isFilling = false := h.top f rfl
    have spec := Frame.action_spec .inPlace f
    have descends := action_descends first
    cases ha : f.action .inPlace <;> simp only [ha] at hs spec descends
    case draw r => exact drawRun_nested h spec hs
    case look slot slots =>
      cases hs
      exact h.replace (f.take_typeName ..) (first.take spec.1 spec.2.1) (Frame.take_not_filling top)
    case call T calls =>
      have called := h.replace (g := { f with calls }) rfl ⟨first.known, fun T' hT =>
        first.calls T' (spec.2.1 ▸ List.mem_cons_of_mem _ hT), first.run, first.slots, first.waits⟩ top
      exact enter_nested resolved rational called.descends called.chain (by simp [top, descends]) hs
    case «continue» T =>
      have filling : { f with hole := .filling }.Descends tuned.system :=
        ⟨first.known, first.calls, first.run, first.slots, by simp [Hole.waits]⟩
      have chain : ({ f with hole := .filling } :: rest).IsChain (Frame.Over tuned.system) :=
        Frame.chain_replace h.chain rfl
      exact enter_nested resolved rational (List.forall_mem_cons.mpr ⟨filling, below⟩) chain
        (by simp [Hole.isFilling, descends]) hs
    case finish => exact finish_nested h hs

theorem steps_nested (resolved : tuned.system.Resolved) (rational : tuned.system.classify = .rational) {fuel : Nat}
    (h : Frame.Nested tuned.system a.stack) (hs : steps D (.ofTuned tuned) .inPlace limit fuel a = .running b) :
    Frame.Nested tuned.system b.stack := by
  induction fuel generalizing a
  case zero    =>
    cases hs
    exact h
  case succ hi =>
    rw [steps] at hs
    split at hs
    case h_1 he => exact hi (step_nested resolved rational h he) hs
    case h_2 hn => exact absurd hs (hn b)

theorem draw_nested (resolved : tuned.system.Resolved) (rational : tuned.system.classify = .rational) {fuel : Nat}
    {source : σ} (hs : draw D (.ofTuned tuned) .inPlace limit fuel source T = .running b) :
    Frame.Nested tuned.system b.stack := by
  rw [draw] at hs
  split at hs
  case h_1 he => exact steps_nested resolved rational (enter_nested resolved rational (by simp) .nil (by simp) he) hs
  case h_2 hn => exact absurd hs (hn b)

end Attempt

namespace Sampler

variable {tuned : Tuned} {entries : List (Except Json Declaration)} {annotations : List (String × Json)}
  {allowUnsafe : Bool} {checked : Checked}

-- In a rational system every constructor has its plan, with one continuation at most. Whenever an attempt is under
-- way, each walk is in one component and lies below those it is nested in; and no more of them are nested, the one
-- that is about to begin included, than there are components.
theorem walks_nest (declared : Specification.ofDeclarations entries annotations = .ok tuned.system)
    (accepted : tuned.system.check allowUnsafe = .ok checked) (rational : checked.classification = .rational)
    (agrees : tuned.classification = checked.classification) :
    (ofTuned tuned).order = .inPlace ∧
    (∀ t ∈ tuned.system.types, ∃ d, (ofTuned tuned).dispatch? t.name = some d ∧
      List.Forall₂ (tuned.Planned t) t.constructors d.plans) ∧
    ∀ {σ : Type} (D : Decider σ) (limit : Option Nat) (fuel : Nat) (source : σ) (T : String) (a : Attempt σ),
      Attempt.draw D (ofTuned tuned) .inPlace limit fuel source T = .running a →
      (∀ w ∈ Frame.walks a.stack, ∀ f ∈ w, ∀ g ∈ w,
        tuned.system.referenceGraph.Connected f.typeName g.typeName) ∧
      ((Frame.walks a.stack).Pairwise fun inner outer => ∀ f ∈ inner, ∀ g ∈ outer,
        tuned.system.referenceGraph.Above g.typeName f.typeName) ∧
      (Frame.walks a.stack).length ≤ tuned.system.componentCount ∧
      ∀ f rest, a.stack = f :: rest → match f.action .inPlace with
        | .call T _   => tuned.system.referenceGraph.Above f.typeName T ∧
            (Frame.walks a.stack).length + 1 ≤ tuned.system.componentCount
        | .continue T => tuned.system.referenceGraph.Connected f.typeName T
        | _           => True := by
  have resolved := Specification.resolved declared
  have classified := Specification.classify_of_check accepted rational
  have order : (ofTuned tuned).order = .inPlace := by simp [Sampler.order, ofTuned, agrees, rational]
  refine ⟨order, fun t ht => ⟨_, tuned.dispatch?_eq resolved ht, ?plans⟩, fun D limit fuel source T a running => ?walks⟩
  case plans =>
    exact List.forall₂_map_right_iff.mpr <| List.forall₂_same.mpr fun c hc => Tuned.planned resolved classified ht hc
  case walks =>
    have nested := Attempt.draw_nested resolved classified running
    refine ⟨nested.same_walk, nested.lower_walk, nested.length_walks_le resolved, fun f rest hstack => ?_⟩
    rw [hstack] at nested ⊢
    have descends := Attempt.action_descends (nested.descends f List.mem_cons_self)
    cases ha : f.action .inPlace <;> simp only [ha] at descends
    case draw | look | finish => trivial
    case call                 => exact ⟨descends, nested.length_walks_lt resolved descends⟩
    case «continue»           => exact descends

end Sampler

namespace Specification

-- Texts of lines, where every line has an atom at least.
def textEntries : List (Except Json Declaration) :=
  let finish : Constructor Arg := ⟨"End", [.plain .epsilon], 1, isWeight_one⟩
  let more : Constructor Arg := ⟨"More", [.plain (.ref "Line"), .plain (.ref "Text")], 1, isWeight_one⟩
  let stop : Constructor Arg := ⟨"Stop", [.plain (.atom .unit)], 1, isWeight_one⟩
  let go : Constructor Arg := ⟨"Go", [.plain (.atom .unit), .plain (.ref "Line")], 1, isWeight_one⟩
  [.ok ⟨"Text", [.ok finish, .ok more], .text "plain", none, 0⟩, .ok ⟨"Line", [.ok stop, .ok go], .text "plain", none, 0⟩]

def texts : Specification where
  types :=
    let finish : Constructor Symbol := ⟨"End", [.epsilon], 1, isWeight_one⟩
    let more : Constructor Symbol := ⟨"More", [.ref "Line", .ref "Text"], 1, isWeight_one⟩
    let stop : Constructor Symbol := ⟨"Stop", [.atom .unit], 1, isWeight_one⟩
    let go : Constructor Symbol := ⟨"Go", [.atom .unit, .ref "Line"], 1, isWeight_one⟩
    [⟨"Text", [finish, more], .declared none 0⟩, ⟨"Line", [stop, go], .declared none 0⟩]
  initial := "Text"
  annotations := []

end Specification

namespace Tuned

def texts : Tuned where
  system         := .texts
  classification := .rational
  mode           := .cumulative
  singularity    := 0.5
  parameter      := 0.25
  values         := [("Text", 1.5), ("Line", 1 / 3)]
  probabilities  := [[2 / 3, 1 / 3], [0.75, 0.25]]
  aligned        := rfl

end Tuned

namespace Sampler

-- The walk of a line begins within that of the text, and there is no third component.
theorem texts_nest : Specification.ofDeclarations Specification.textEntries [] = .ok Tuned.texts.system ∧
    (∃ checked, Tuned.texts.system.check false = .ok checked ∧ checked.classification = .rational) ∧
    Tuned.texts.system.componentCount = 2 ∧
    (∃ a, Attempt.draw Decider.script (ofTuned .texts) .inPlace none 2 [.choose 1, .choose 0] "Text" = .running a ∧
      (Frame.walks a.stack).length = 2) ∧
    ∀ {σ : Type} (D : Decider σ) (limit : Option Nat) (fuel : Nat) (source : σ) (T : String) (a : Attempt σ),
      Attempt.draw D (ofTuned .texts) .inPlace limit fuel source T = .running a →
      (Frame.walks a.stack).length ≤ 2 := by
  have count : Tuned.texts.system.componentCount = 2 := by decide +kernel
  have checked : Tuned.texts.system.check false = .ok ⟨.texts, .rational, Tuned.texts.system.warnings⟩ := rfl
  have ⟨_, _, nest⟩ := @walks_nest .texts Specification.textEntries [] false _ rfl checked rfl rfl
  refine ⟨rfl, ⟨_, checked, rfl⟩, count, ⟨_, rfl, by decide +kernel⟩, fun D limit fuel source T a running => ?_⟩
  exact count ▸ (nest D limit fuel source T a running).2.2.1

end Sampler

end BoltzmannSampling
