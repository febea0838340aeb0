import Mathlib
import BoltzmannSampling.Proofs.Sampler.Turns

/-!
The decisions that draw a derivation tell it apart from every other one of its type, whatever decisions follow: the
lengths of runs are read off first, and once they are known the children are.
-/

namespace BoltzmannSampling

namespace Derivation

variable {tuned : Tuned} {order : DrawOrder} {slots : List Slot} {ps ps' : List Derivation} {ds ds' : List Decision}

def lengths (tuned : Tuned) (d : Derivation) : List Decision :=
  (d.runs tuned).map Turn.decision

def script (tuned : Tuned) (order : DrawOrder) (d : Derivation) : List Decision :=
  (d.turns tuned order).map Turn.decision

-- Two derivations whose decisions tell which of them it is and where they end.
structure Separate (tuned : Tuned) (order : DrawOrder) (p p' : Derivation) : Prop where
  lengths : ∀ ds ds', p.lengths tuned ++ ds = p'.lengths tuned ++ ds' → p.lengths tuned = p'.lengths tuned ∧ ds = ds'
  script  : p.lengths tuned = p'.lengths tuned →
    ∀ ds ds', p.script tuned order ++ ds = p'.script tuned order ++ ds' → p = p' ∧ ds = ds'

namespace Separate

theorem scripts (h : List.Forall₂ (Separate tuned order) ps ps')
    (hl : List.Forall₂ (fun p p' => p.lengths tuned = p'.lengths tuned) ps ps') {ds ds' : List Decision}
    (he : ps.flatMap (·.script tuned order) ++ ds = ps'.flatMap (·.script tuned order) ++ ds') :
    ps = ps' ∧ ds = ds' := by
  induction h generalizing ds ds'
  case nil => exact ⟨rfl, he⟩
  case cons p p' _ _ hp _ hi =>
    cases hl
    case cons hl hls =>
      simp only [List.flatMap_cons, List.append_assoc] at he
      have ⟨hd, he⟩ := hp.script hl _ _ he
      have ⟨hs, he⟩ := hi hls he
      exact ⟨by rw [hd, hs], he⟩

theorem runs (h : List.Forall₂ (Separate tuned order) ps ps')
    (he : ps.flatMap (·.lengths tuned) ++ ds = ps'.flatMap (·.lengths tuned) ++ ds') :
    List.Forall₂ (fun p p' => p.lengths tuned = p'.lengths tuned) ps ps' ∧ ds = ds' := by
  induction h
  case nil => exact ⟨.nil, he⟩
  case cons p p' _ _ hp _ hi =>
    simp only [List.flatMap_cons, List.append_assoc] at he
    have ⟨hl, he⟩ := hp.lengths _ _ he
    have ⟨hls, he⟩ := hi he
    exact ⟨.cons hl hls, he⟩

-- What is drawn early tells enough for what is drawn late to tell the rest.
theorem early (h : List.Forall₂ (Separate tuned order) ps ps') (hl : slots.length = ps.length)
    (he : (DrawOrder.early slots (ps.map (both tuned order))).map Turn.decision ++ ds =
      (DrawOrder.early slots (ps'.map (both tuned order))).map Turn.decision ++ ds') :
    ds = ds' ∧ ∀ es es', (DrawOrder.late slots (ps.map (both tuned order))).map Turn.decision ++ es =
      (DrawOrder.late slots (ps'.map (both tuned order))).map Turn.decision ++ es' → ps = ps' ∧ es = es' := by
  induction h generalizing slots
  case nil =>
    cases List.length_eq_zero_iff.mp hl
    exact ⟨he, fun es es' he => ⟨rfl, he⟩⟩
  case cons p p' ps ps' hp _ hi =>
    cases slots
    case nil => simp at hl
    case cons slot slots =>
      simp only [List.map_cons, DrawOrder.early, DrawOrder.late, List.map_append, List.append_assoc] at he ⊢
      obtain ⟨hr, he⟩ := hp.lengths _ _ he
      cases hc : slot.continues
      case true =>
        simp only [hc, if_true, List.map_nil, List.nil_append] at he ⊢
        obtain ⟨hd, late⟩ := hi (Nat.succ.inj hl) he
        refine ⟨hd, fun es es' he => ?_⟩
        obtain ⟨hs, he⟩ := hp.script hr _ _ he
        obtain ⟨hss, he⟩ := late _ _ he
        exact ⟨by rw [hs, hss], he⟩
      case false =>
        simp only [hc, Bool.false_eq_true, if_false, List.map_nil, List.nil_append] at he ⊢
        obtain ⟨hs, he⟩ := hp.script hr _ _ he
        obtain ⟨hd, late⟩ := hi (Nat.succ.inj hl) he
        refine ⟨hd, fun es es' he => ?_⟩
        obtain ⟨hss, he⟩ := late _ _ he
        exact ⟨by rw [hs, hss], he⟩

theorem arrange (h : List.Forall₂ (Separate tuned order) ps ps') (hl : slots.length = ps.length)
    (he : (order.arrange ([], []) [] [] slots (ps.map (both tuned order))).map Turn.decision ++ ds =
      (order.arrange ([], []) [] [] slots (ps'.map (both tuned order))).map Turn.decision ++ ds') :
    ps = ps' ∧ ds = ds' := by
  cases order
  case ahead =>
    simp only [DrawOrder.arrange, List.nil_append, List.append_nil, List.map_append, List.append_assoc,
      List.flatMap_map, List.map_flatMap] at he
    obtain ⟨hl, he⟩ := runs h he
    exact scripts h hl he
  case inPlace =>
    simp only [DrawOrder.arrange, List.nil_append, List.append_nil, List.map_append, List.append_assoc] at he
    obtain ⟨he, late⟩ := early h hl he
    exact late _ _ he

end Separate

end Derivation

namespace Specification

variable {tuned : Tuned} {order : DrawOrder} {T : String} {d d' : Derivation} {ds ds' : List Decision}

theorem lengths_declared (h : d.type.isAuxiliary = false) : d.lengths tuned = [] := by
  rw [Derivation.lengths, Derivation.runs_declared h, List.map_nil]

theorem pick_unique (resolved : tuned.system.Resolved) {t : TypeDef} (ht : t ∈ tuned.system.types)
    {c c' : Constructor Symbol} (hc : c ∈ t.constructors) (hc' : c' ∈ t.constructors)
    (he : (tuned.pick t c).map Turn.decision ++ ds = (tuned.pick t c').map Turn.decision ++ ds') :
    c = c' ∧ ds = ds' := by
  by_cases hd : (tuned.dispatch t).needsDraw
  case pos =>
    simp only [Tuned.pick, if_pos hd, List.map_cons, List.map_nil, Turn.decision, List.cons_append, List.nil_append,
      List.cons.injEq, Decision.choose.injEq] at he
    have h := (Tuned.getElem?_place resolved ht).mpr ⟨hc, rfl⟩
    have h' := (Tuned.getElem?_place resolved ht).mpr ⟨hc', he.1⟩
    exact ⟨Option.some.inj (h.symm.trans h'), he.2⟩
  case neg =>
    have hl : t.constructors.length = 1 := by simpa [Dispatch.needsDraw, Tuned.dispatch] using hd
    obtain ⟨x, hx⟩ := List.length_eq_one_iff.mp hl
    simp only [Tuned.pick, if_neg hd] at he
    rw [hx, List.mem_singleton] at hc hc'
    exact ⟨hc.trans hc'.symm, he⟩

-- Whether there is another element tells the constructors of an auxiliary type apart.
theorem auxiliary_constructor_unique {m : Modifier} {e : Element} {R : String → Derivation → Prop}
    {c c' : Constructor Symbol} {ps ps' : List Derivation} (hc : c ∈ (TypeDef.auxiliary m e).constructors)
    (hc' : c' ∈ (TypeDef.auxiliary m e).constructors) (hp : List.Forall₂ R c.refs ps)
    (hp' : List.Forall₂ R c'.refs ps') (he : ps.isEmpty = ps'.isEmpty) : c = c' := by
  simp only [Constructor.auxiliary_constructors, List.mem_cons, List.not_mem_nil, or_false] at hc hc'
  have hl := hp.length_eq
  have hl' := hp'.length_eq
  have nil_ne {c : Constructor Symbol} {ps : List Derivation} (hc : c = .cons m e)
      (hl : c.refs.length = ps.length) : ps.isEmpty = false := by
    rw [hc, Constructor.cons_refs, List.length_append] at hl
    exact List.isEmpty_eq_false_iff.mpr <| List.ne_nil_of_length_pos (hl ▸ Nat.succ_pos _)
  have nil_eq {c : Constructor Symbol} {ps : List Derivation} (hc : c = .nil m e)
      (hl : c.refs.length = ps.length) : ps.isEmpty = true := by
    rw [hc, Constructor.nil_refs, List.length_nil] at hl
    exact List.isEmpty_iff_length_eq_zero.mpr hl.symm
  cases hc <;> cases hc'
  case inl.inl hc hc' | inr.inr hc hc' => rw [hc, hc']
  case inl.inr hc hc' => simp [nil_eq hc hl, nil_ne hc' hl'] at he
  case inr.inl hc hc' => simp [nil_ne hc hl, nil_eq hc' hl'] at he

theorem lengths_auxiliary {t : TypeDef} {c : Constructor Symbol} {ps : List Derivation}
    (ha : t.isAuxiliary = true) : (Derivation.node t c ps).lengths tuned =
      .again (!ps.isEmpty) :: ps.flatMap (·.lengths tuned) := by
  have ⟨m, e, ho⟩ := TypeDef.origin_of_isAuxiliary ha
  rw [Derivation.lengths, Derivation.runs]
  simp only [ho]
  rw [List.map_cons, List.map_flatMap]
  rfl

-- Nodes of one type are told apart if their parts are, once it is known that the constructors agree.
theorem separate_declared (resolved : tuned.system.Resolved) {t : TypeDef} (ht : t ∈ tuned.system.types)
    (ha : t.isAuxiliary = false) {c c' : Constructor Symbol} (hc : c ∈ t.constructors) (hc' : c' ∈ t.constructors)
    {ps ps' : List Derivation} (hp : tuned.system.Forest c.refs ps)
    (parts : c = c' → List.Forall₂ (Derivation.Separate tuned order) ps ps') :
    Derivation.Separate tuned order (.node t c ps) (.node t c' ps') := by
  have hr (c ps) : (Derivation.node t c ps).lengths tuned = [] := lengths_declared ha
  constructor
  · intro ds ds' he
    rw [hr, hr] at he ⊢
    exact ⟨rfl, he⟩
  · intro _ ds ds' he
    simp only [Derivation.script, Derivation.turns_node ha, List.map_append, List.append_assoc] at he
    obtain ⟨rfl, he⟩ := pick_unique resolved ht hc hc' he
    have hl : (tuned.plan t c).slots.length = ps.length := by
      rw [← (tuned.plan_slots resolved ht hc).length_eq, hp.length_eq]
    obtain ⟨rfl, hds⟩ := Derivation.Separate.arrange (parts rfl) hl he
    exact ⟨rfl, hds⟩

theorem separate_auxiliary (resolved : tuned.system.Resolved) {t : TypeDef} (ht : t ∈ tuned.system.types)
    (ha : t.isAuxiliary = true) {c c' : Constructor Symbol} (hc : c ∈ t.constructors) (hc' : c' ∈ t.constructors)
    {ps ps' : List Derivation} (hp : tuned.system.Forest c.refs ps) (hp' : tuned.system.Forest c'.refs ps')
    (parts : c = c' → List.Forall₂ (Derivation.Separate tuned order) ps ps') :
    Derivation.Separate tuned order (.node t c ps) (.node t c' ps') := by
  obtain ⟨m, e, ho⟩ := TypeDef.origin_of_isAuxiliary ha
  obtain rfl := resolved.auxiliary _ ht m e ho
  have runs (ds ds') (he : (Derivation.node (.auxiliary m e) c ps).lengths tuned ++ ds =
      (Derivation.node (.auxiliary m e) c' ps').lengths tuned ++ ds') :
      c = c' ∧ List.Forall₂ (fun p p' => p.lengths tuned = p'.lengths tuned) ps ps' ∧ ds = ds' := by
    simp only [lengths_auxiliary ha, List.cons_append, List.cons.injEq, Decision.again.injEq, Bool.not_inj_iff] at he
    have hd := auxiliary_constructor_unique hc hc' hp hp' he.1
    exact ⟨hd, Derivation.Separate.runs (parts hd) he.2⟩
  constructor
  · intro ds ds' he
    obtain ⟨_, _, rfl⟩ := runs ds ds' he
    exact ⟨List.append_cancel_right he, rfl⟩
  · intro hl ds ds' he
    obtain ⟨rfl, hs, _⟩ := runs [] [] (by rw [hl])
    simp only [Derivation.script, Derivation.turns_auxiliary ha, List.map_flatMap] at he
    obtain ⟨rfl, hds⟩ := Derivation.Separate.scripts (parts rfl) hs he
    exact ⟨rfl, hds⟩

-- By induction on one of them, where the other has the same type and, as its decisions show, the same constructor.
theorem separate (resolved : tuned.system.Resolved) (h : d ∈ tuned.system.derivations T)
    (h' : d' ∈ tuned.system.derivations T) : Derivation.Separate tuned order d d' := by
  refine derivations_induction (motive := fun T d => ∀ {d'}, d' ∈ tuned.system.derivations T →
    Derivation.Separate tuned order d d') ?_ h h'
  intro t c ps ht hc hp d' h'
  obtain ⟨t', c', ps'⟩ := d'
  obtain rfl : t' = t := type_eq resolved ht h'
  obtain ⟨_, hc', hp'⟩ := node_mem_derivations.mp h'
  have parts (he : c = c') : List.Forall₂ (Derivation.Separate tuned order) ps ps' :=
    (hp.compose (he ▸ hp')).imp fun _ _ ⟨_, ⟨_, hi⟩, hm⟩ => hi hm
  have hp := hp.imp fun _ _ h => h.1
  cases ha : t'.isAuxiliary
  case false => exact separate_declared resolved ht ha hc hc' hp parts
  case true  => exact separate_auxiliary resolved ht ha hc hc' hp hp' parts

end Specification

end BoltzmannSampling
