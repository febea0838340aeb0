import Mathlib
import BoltzmannSampling.Proofs.Derivation.Auxiliary
import BoltzmannSampling.Proofs.Sampler.Plans

/-!
The turns that draw a derivation. A node first takes the turn of its constructor; then come, in the order of drawing,
those for the lengths of its runs and those for its children. The two orders differ in a permutation, and in either
the decisions tell where the turns of a derivation end and which derivation it is.
-/

namespace BoltzmannSampling

namespace DrawOrder

-- What a node draws before its continuation, given for each argument the turns for a run and those for children.
def early : List Slot → List (List Turn × List Turn) → List Turn
  | slot :: slots, x :: xs => x.1 ++ (if slot.continues then [] else x.2) ++ early slots xs
  | _, _ => []

def late : List Slot → List (List Turn × List Turn) → List Turn
  | slot :: slots, x :: xs => (if slot.continues then x.2 else []) ++ late slots xs
  | _, _ => []

-- The turns of a node whose constructor has been chosen, from some moment on: there may be a run to go on with,
-- children that are due, and the turns for a continuation put off.
def arrange (order : DrawOrder) (run : List Turn × List Turn) (due held : List Turn) (slots : List Slot)
    (xs : List (List Turn × List Turn)) : List Turn :=
  match order with
  | ahead   => run.1 ++ xs.flatMap (·.1) ++ due ++ run.2 ++ xs.flatMap (·.2) ++ held
  | inPlace => run.1 ++ due ++ run.2 ++ early slots xs ++ held ++ late slots xs

end DrawOrder

namespace Derivation

-- The turns for the length of a sequence or set, one an element and one for the end.
def runs (tuned : Tuned) : Derivation → List Turn
  | node t _ parts =>
    match t.origin with
    | .declared ..   => []
    | .auxiliary _ e => .again (tuned.continuing t.name) e (!parts.isEmpty) :: parts.flatMap (runs tuned)

-- The turns for the nodes of a derivation; those of a sequence or set are the ones of its elements.
def turns (tuned : Tuned) (order : DrawOrder) : Derivation → List Turn
  | node t c parts =>
    if t.isAuxiliary then parts.flatMap (turns tuned order)
    else tuned.pick t c ++
      order.arrange ([], []) [] [] (tuned.plan t c).slots (parts.map fun p => (p.runs tuned, p.turns tuned order))

variable {tuned : Tuned} {order : DrawOrder} {d : Derivation} {elements : List Derivation}

-- The turns of a derivation as an argument.
def both (tuned : Tuned) (order : DrawOrder) (d : Derivation) : List Turn × List Turn :=
  (d.runs tuned, d.turns tuned order)

theorem runs_declared (h : d.type.isAuxiliary = false) : d.runs tuned = [] := by
  cases d
  case node t c parts =>
    rw [runs]
    cases ho : t.origin
    case declared  => rfl
    case auxiliary => simp [TypeDef.isAuxiliary, ho] at h

theorem runs_nil (m : Modifier) (e : Element) :
    (nil m e).runs tuned = [.again (tuned.continuing (TypeDef.auxiliaryName m e)) e false] := by
  rw [nil, runs]
  rfl

theorem runs_cons (m : Modifier) (e : Element) (rest : Derivation) (h : ∀ d ∈ elements, d.type.isAuxiliary = false) :
    (cons m e elements rest).runs tuned =
      .again (tuned.continuing (TypeDef.auxiliaryName m e)) e true :: rest.runs tuned := by
  have hr : (elements ++ [rest]).flatMap (runs tuned) = rest.runs tuned := by
    rw [List.flatMap_append, List.flatMap_singleton, List.flatMap_eq_nil_iff.mpr fun d hd => runs_declared (h d hd),
      List.nil_append]
  have hp : (!(elements ++ [rest]).isEmpty) = true := by simp
  rw [cons, runs]
  simp only [TypeDef.auxiliary, hr, hp]

theorem turns_node {t : TypeDef} (h : t.isAuxiliary = false) (c parts) : (node t c parts).turns tuned order =
    tuned.pick t c ++ order.arrange ([], []) [] [] (tuned.plan t c).slots (parts.map (both tuned order)) := by
  rw [turns, if_neg (by simp [h])]
  rfl

theorem turns_auxiliary {t : TypeDef} (h : t.isAuxiliary = true) (c parts) :
    (node t c parts).turns tuned order = parts.flatMap (turns tuned order) := by
  rw [turns, if_pos h]

theorem turns_nil (m : Modifier) (e : Element) : (nil m e).turns tuned order = [] := by
  rw [nil, turns_auxiliary rfl, List.flatMap_nil]

theorem turns_cons (m : Modifier) (e : Element) (rest : Derivation) : (cons m e elements rest).turns tuned order =
    elements.flatMap (turns tuned order) ++ rest.turns tuned order := by
  rw [cons, turns_auxiliary rfl, List.flatMap_append, List.flatMap_singleton]

end Derivation

namespace DrawOrder

variable {slots : List Slot} {xs : List (List Turn × List Turn)}

theorem early_late_perm (h : slots.length = xs.length) :
    (early slots xs ++ late slots xs).Perm (xs.flatMap (·.1) ++ xs.flatMap (·.2)) := by
  induction slots generalizing xs
  case nil =>
    cases xs
    case nil  => exact .refl _
    case cons => simp at h
  case cons slot slots hi =>
    cases xs
    case nil => simp at h
    case cons x xs =>
      have hp := hi (Nat.succ.inj h)
      rw [← Multiset.coe_eq_coe] at hp ⊢
      simp only [← Multiset.coe_add] at hp
      simp only [early, late, List.flatMap_cons, ← Multiset.coe_add]
      cases slot.continues
      case true =>
        simp only [if_true, Multiset.coe_nil, add_zero]
        rw [add_add_add_comm, hp, add_add_add_comm]
      case false =>
        simp only [Bool.false_eq_true, if_false, Multiset.coe_nil, zero_add]
        rw [add_assoc, hp, add_add_add_comm]

end DrawOrder

namespace Specification

variable {tuned : Tuned} {T : String} {d d' : Derivation}

theorem turns_perm (resolved : tuned.system.Resolved) (h : d ∈ tuned.system.derivations T) :
    (d.turns tuned .ahead).Perm (d.turns tuned .inPlace) := by
  refine derivations_induction (motive := fun _ d => (d.turns tuned .ahead).Perm (d.turns tuned .inPlace)) ?_ h
  intro t c parts ht hc hp
  have hi : ∀ p ∈ parts, (p.turns tuned .ahead).Perm (p.turns tuned .inPlace) := fun p hm =>
    have ⟨_, _, _, hi⟩ := hp.exists_left hm
    hi
  by_cases ha : t.isAuxiliary
  case pos =>
    rw [Derivation.turns_auxiliary ha, Derivation.turns_auxiliary ha]
    exact List.Perm.flatMap_left _ hi
  case neg =>
    have hl : (tuned.plan t c).slots.length = (parts.map (Derivation.both tuned .inPlace)).length := by
      rw [← (tuned.plan_slots resolved ht hc).length_eq, hp.length_eq, List.length_map]
    rw [Derivation.turns_node (by simpa using ha), Derivation.turns_node (by simpa using ha)]
    apply List.Perm.append_left
    simp only [DrawOrder.arrange, List.nil_append, List.append_nil]
    refine List.Perm.trans ?_ (DrawOrder.early_late_perm hl).symm
    simp only [List.flatMap_map, Derivation.both]
    exact List.Perm.append_left _ <| List.Perm.flatMap_left _ hi

end Specification

end BoltzmannSampling
