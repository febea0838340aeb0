import Mathlib
import BoltzmannSampling.Proofs.Derivation.Flat

/-!
Derivations of auxiliary types. Each is empty, or has an element, which an atom is without a derivation, and a rest of
the same type: it is a list of elements.
-/

namespace BoltzmannSampling

theorem TypeDef.origin_of_isAuxiliary {t : TypeDef} (h : t.isAuxiliary = true) :
    ∃ m e, t.origin = .auxiliary m e := by
  cases ho : t.origin
  case declared      => simp [isAuxiliary, ho] at h
  case auxiliary m e => exact ⟨m, e, rfl⟩

namespace Constructor

open TypeDef

variable (m : Modifier) (e : Element)

def nil : Constructor Symbol :=
  ⟨auxiliaryName m e ++ ".Nil", [.epsilon], 1, isWeight_one⟩

def cons : Constructor Symbol :=
  ⟨auxiliaryName m e ++ ".Cons", [e.symbol, .ref (auxiliaryName m e)], 1, isWeight_one⟩

theorem auxiliary_constructors : (TypeDef.auxiliary m e).constructors = [nil m e, cons m e] := rfl

theorem nil_refs : (nil m e).refs = [] := rfl

theorem nil_size : (nil m e).size = 0 := rfl

theorem cons_refs : (cons m e).refs = e.type?.toList ++ [auxiliaryName m e] := by
  cases e <;> rfl

theorem cons_size : (cons m e).size = e.atomSize := by
  cases e <;> rfl

end Constructor

namespace Derivation

def nil (m : Modifier) (e : Element) : Derivation :=
  node (.auxiliary m e) (.nil m e) []

-- The element has a derivation unless it is an atom.
def cons (m : Modifier) (e : Element) (elements : List Derivation) (rest : Derivation) : Derivation :=
  node (.auxiliary m e) (.cons m e) (elements ++ [rest])

variable (m : Modifier) (e : Element) {elements : List Derivation} (rest : Derivation)

theorem size_nil : (nil m e).size = 0 := by
  simp [nil, size_node, Constructor.nil_size]

theorem size_cons : (cons m e elements rest).size = e.atomSize + ((elements.map size).sum + rest.size) := by
  simp [cons, size_node, Constructor.cons_size]

theorem atoms_nil : (nil m e).atoms = 0 := by
  rw [nil, atoms_auxiliary rfl]
  rfl

theorem atoms_cons (h : ∀ d ∈ elements, d.type.isAuxiliary = false) :
    (cons m e elements rest).atoms = e.atomSize + rest.atoms := by
  have : elements.map atoms = elements.map fun _ => 0 := List.map_congr_left fun d hd => atoms_declared (h d hd)
  rw [cons, atoms_auxiliary rfl, Constructor.cons_size, List.map_append, List.sum_append, this]
  simp

theorem children_nil : (nil m e).children = [] := by
  rw [nil, children_auxiliary rfl, List.flatMap_nil]

theorem children_cons (h : ∀ d ∈ elements, d.type.isAuxiliary = false) :
    (cons m e elements rest).children = elements.map toStructure ++ rest.children := by
  have : elements.flatMap children = elements.map toStructure := by
    rw [List.map_eq_flatMap]
    exact List.flatMap_congr fun d hd => children_declared (h d hd)
  rw [cons, children_auxiliary rfl, List.flatMap_append, this, List.flatMap_singleton]

end Derivation

namespace Specification

variable {s : Specification} {m : Modifier} {e : Element} {elements : List Derivation} {rest d : Derivation}

theorem type_eq (resolved : s.Resolved) {t : TypeDef} (ht : t ∈ s.types) (hd : d ∈ s.derivations t.name) :
    d.type = t :=
  have ⟨hm, hn⟩ := type_mem hd
  resolved.type_unique hm ht hn

theorem declared_of_user (resolved : s.Resolved) {u : TypeDef} (hu : u ∈ s.userTypes) (hd : d ∈ s.derivations u.name) :
    d.type.isAuxiliary = false := by
  have ⟨hm, ha⟩ := List.mem_filter.mp hu
  rw [type_eq resolved hm hd]
  simpa using ha

-- The elements of sequences and sets are of declared types.
theorem elements_declared (resolved : s.Resolved) (haux : .auxiliary m e ∈ s.types)
    (h : s.Forest e.type?.toList elements) :
    ∀ d ∈ elements, d.type.isAuxiliary = false := by
  intro d hd
  have ⟨r, hr, hd⟩ := h.exists_left hd
  cases e
  case atom => simp [Element.type?] at hr
  case ref T =>
    have ⟨u, hu, hn⟩ := resolved.element m T haux
    have hr : r = u.name := by simpa [Element.type?, hn] using hr
    exact declared_of_user resolved hu (hr ▸ hd)

theorem nil_mem (haux : .auxiliary m e ∈ s.types) : .nil m e ∈ s.derivations (TypeDef.auxiliaryName m e) :=
  node_mem_derivations.mpr ⟨⟨haux, rfl⟩, by simp [Constructor.auxiliary_constructors], .nil⟩

theorem cons_mem (haux : .auxiliary m e ∈ s.types)
    (he : s.Forest e.type?.toList elements)
    (hr : rest ∈ s.derivations (TypeDef.auxiliaryName m e)) :
    .cons m e elements rest ∈ s.derivations (TypeDef.auxiliaryName m e) := by
  refine node_mem_derivations.mpr ⟨⟨haux, rfl⟩, by simp [Constructor.auxiliary_constructors], ?_⟩
  rw [Constructor.cons_refs]
  exact List.rel_append he (.cons hr .nil)

theorem auxiliary_cases (resolved : s.Resolved) (haux : .auxiliary m e ∈ s.types)
    (h : d ∈ s.derivations (TypeDef.auxiliaryName m e)) :
    d = .nil m e ∨ ∃ elements rest, s.Forest e.type?.toList elements ∧
      rest ∈ s.derivations (TypeDef.auxiliaryName m e) ∧ d = .cons m e elements rest := by
  have ht : d.type = .auxiliary m e := type_eq resolved haux h
  cases d
  case node t c parts =>
    obtain rfl : t = .auxiliary m e := ht
    have ⟨_, hc, hp⟩ := node_mem_derivations.mp h
    rw [Constructor.auxiliary_constructors, List.mem_cons, List.mem_singleton] at hc
    cases hc
    case inl hc =>
      rw [hc, Constructor.nil_refs] at hp
      cases hp
      exact .inl (hc ▸ rfl)
    case inr hc =>
      rw [hc, Constructor.cons_refs] at hp
      have ⟨elements, _, he, hes, hr⟩ := hp.append_left
      cases hr
      case cons rest _ hr hn =>
        cases hn
        exact .inr ⟨elements, rest, hes, hr, by rw [hc, he]; rfl⟩

end Specification

end BoltzmannSampling
