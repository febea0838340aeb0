import Mathlib
import BoltzmannSampling.Proofs.Specification.Resolved

/-!
When declarations make a system. Each check succeeds exactly if what it looks for holds of all declarations, and the
system is then the table of the declarations.
-/

namespace BoltzmannSampling

namespace Specification

variable {s : Specification} {ds : List Declaration} {annotations : List (String × Json)}

theorem checkNames_eq_ok {seen : List String} {entries : List (Except Json Declaration)} :
    checkNames seen entries = .ok ds ↔ entries = ds.map .ok ∧ (ds.map Declaration.name).Nodup ∧
      (∀ d ∈ ds, d.name ∉ seen) ∧ ∀ d ∈ ds, d.isPlain = true := by
  induction entries generalizing seen ds
  case nil => cases ds <;> simp [checkNames]
  case cons entry entries hi =>
    cases entry
    case error => cases ds <;> simp [checkNames]
    case ok d =>
      cases ds
      case nil =>
        simp only [checkNames]
        repeat' split
        all_goals simp
      case cons d' ds =>
        have cons : checkNames seen (.ok d :: entries) = .ok (d' :: ds) ↔
            d = d' ∧ d.name ∉ seen ∧ d.isPlain = true ∧ checkNames (d.name :: seen) entries = .ok ds := by
          simp only [checkNames]
          by_cases hs : d.name ∈ seen
          case pos => simp [hs]
          case neg =>
            by_cases hp : d.isPlain
            case neg => simp [hs, hp]
            case pos => cases checkNames (d.name :: seen) entries <;> simp [hs, hp]
        rw [cons, hi]
        simp only [List.map_cons, List.cons.injEq, Except.ok.injEq, List.nodup_cons, List.forall_mem_cons]
        simp only [List.mem_cons, not_or, List.mem_map, not_exists, not_and]
        constructor
        · rintro ⟨rfl, hd, hp, rfl, hn, hs, hps⟩
          exact ⟨⟨rfl, rfl⟩, ⟨fun e he => (hs e he).1, hn⟩, ⟨hd, fun e he => (hs e he).2⟩, hp, hps⟩
        · rintro ⟨⟨rfl, rfl⟩, ⟨hf, hn⟩, ⟨hd, hs⟩, hp, hps⟩
          exact ⟨rfl, hd, hp, rfl, hn, fun e he => ⟨hf e he, hs e he⟩, hps⟩

theorem checkProductions_eq_ok {names seen : List String} {ps : List (TypeDef × Constructor Symbol)} :
    checkProductions names seen ps = .ok () ↔ (ps.map (·.2.name)).Nodup ∧ (∀ p ∈ ps, p.2.name ∉ seen) ∧
      ∀ p ∈ ps, ∀ r ∈ p.2.refs, r ∈ names := by
  refine ⟨checkProductions_ok, ?_⟩
  induction ps generalizing seen
  case nil => simp [checkProductions]
  case cons p ps hi =>
    rintro ⟨hn, hs, hr⟩
    obtain ⟨hp, hn⟩ := List.nodup_cons.mp hn
    obtain ⟨hs, hss⟩ := List.forall_mem_cons.mp hs
    obtain ⟨hr, hrs⟩ := List.forall_mem_cons.mp hr
    have known : p.2.refs.find? (!names.contains ·) = none := by simpa using hr
    have fresh : seen.contains p.2.name = false := by simpa using hs
    simp only [checkProductions, fresh, known]
    refine hi ⟨hn, fun q hq => ?_, hrs⟩
    rw [List.mem_cons, not_or]
    exact ⟨fun he => hp <| List.mem_map.mpr ⟨q, hq, he⟩, hss q hq⟩

theorem checkDeclaration_eq_ok {users : List String} {d : Declaration} :
    checkDeclaration users d = .ok () ↔ d.constructors ≠ [] ∧ d.constructors = d.proper.map .ok ∧
      ∀ c ∈ d.proper, ∀ m name, .many m (.ref name) ∈ c.args → name ∈ users := by
  have proper (entries : List (Except Json (Constructor Arg))) :
      entries = (entries.filterMap Except.toOption).map .ok ↔ ∀ e ∈ entries, ∃ c, e = .ok c := by
    constructor
    · intro h e he
      rw [h] at he
      have ⟨c, _, hc⟩ := List.mem_map.mp he
      exact ⟨c, hc.symm⟩
    · intro h
      induction entries
      case nil => rfl
      case cons e es hi =>
        have ⟨⟨c, hc⟩, hs⟩ := List.forall_mem_cons.mp h
        rw [hc]
        exact congrArg _ (hi hs)
  refine ⟨fun h => ⟨?nonempty, (proper _).mpr fun e he => ?proper, checkDeclaration_ok h⟩, fun ⟨hn, hp, hc⟩ => ?_⟩
  case nonempty => rintro he; simp [checkDeclaration, he] at h
  case proper =>
    simp only [checkDeclaration] at h
    split at h
    case isTrue  => simp at h
    case isFalse =>
      have := Checks.forM_eq_ok.mp h e he
      cases e
      case error => simp at this
      case ok c  => exact ⟨c, rfl⟩
  · have hn : d.constructors.isEmpty = false := by simpa using hn
    simp only [checkDeclaration, hn]
    refine Checks.forM_eq_ok.mpr fun e he => ?_
    rw [hp] at he
    obtain ⟨c, hm, rfl⟩ := List.mem_map.mp he
    refine Checks.forM_eq_ok.mpr fun a ha => ?_
    cases a
    case plain => rfl
    case many m e =>
      cases e
      case atom     => rfl
      case ref name => simp [checkOperand, hc c hm m name ha]

theorem checkAuxiliary_eq_ok {users : List String} {t : TypeDef} :
    checkAuxiliary users t = .ok () ↔ t.name ∉ users := by
  refine ⟨checkAuxiliary_ok, fun h => ?_⟩
  simp [checkAuxiliary, h]

-- The system of some declarations, checked or not.
def ofTable (ds : List Declaration) (annotations : List (String × Json)) : Specification :=
  ⟨table ds, ((ds.map Declaration.name).head?).getD "", annotations⟩

-- What the checks ask of declarations.
structure Acceptable (ds : List Declaration) (annotations : List (String × Json)) : Prop where
  nonempty     : ds ≠ []
  names        : (ds.map Declaration.name).Nodup
  plain        : ∀ d ∈ ds, d.isPlain = true
  inhabited    : ∀ d ∈ ds, d.constructors ≠ []
  proper       : ∀ d ∈ ds, d.constructors = d.proper.map .ok
  operands     : ∀ d ∈ ds, ∀ c ∈ d.proper, ∀ m name, .many m (.ref name) ∈ c.args → name ∈ ds.map Declaration.name
  fresh        : ∀ t ∈ auxiliaries ds, t.name ∉ ds.map Declaration.name
  constructors : (ofTable ds annotations).constructorNames.Nodup
  refs         : ∀ t ∈ table ds, ∀ c ∈ t.constructors, ∀ r ∈ c.refs, r ∈ (ofTable ds annotations).names
  annotations  : ∀ entry ∈ annotations, checkAnnotation entry = .ok ()

theorem ofDeclarations_eq_ok {entries : List (Except Json Declaration)} :
    ofDeclarations entries annotations = .ok s ↔
      ∃ ds, entries = ds.map .ok ∧ Acceptable ds annotations ∧ s = ofTable ds annotations := by
  have steps : ofDeclarations entries annotations = .ok s ↔ entries ≠ [] ∧ ∃ ds, checkNames [] entries = .ok ds ∧
      (∀ d ∈ ds, checkDeclaration (ds.map Declaration.name) d = .ok ()) ∧
      (∀ t ∈ auxiliaries ds, checkAuxiliary (ds.map Declaration.name) t = .ok ()) ∧
      checkProductions (ofTable ds annotations).names [] (ofTable ds annotations).productions = .ok () ∧
      (∀ entry ∈ annotations, checkAnnotation entry = .ok ()) ∧ s = ofTable ds annotations := by
    simp only [ofDeclarations]
    split
    case isTrue h => simp [bind, Except.bind, List.isEmpty_iff.mp h]
    case isFalse h =>
      have hn : entries ≠ [] := fun he => h <| List.isEmpty_iff.mpr he
      simp only [Checks.bind_eq_ok, Checks.forM_eq_ok, Except.ok.injEq, hn, true_and, ne_eq, not_false_eq_true]
      constructor
      · rintro ⟨ds, hc, _, hd, _, ha, _, hp, _, hs, rfl⟩
        exact ⟨ds, hc, hd, ha, hp, hs, rfl⟩
      · rintro ⟨ds, hc, hd, ha, hp, hs, rfl⟩
        exact ⟨ds, hc, (), hd, (), ha, (), hp, (), hs, rfl⟩
  rw [steps]
  simp only [checkNames_eq_ok, checkDeclaration_eq_ok, checkAuxiliary_eq_ok, checkProductions_eq_ok]
  constructor
  · rintro ⟨hn, ds, ⟨rfl, hd, -, hp⟩, hc, ha, ⟨hk, -, hr⟩, hs, rfl⟩
    refine ⟨ds, rfl, ⟨by simpa using hn, hd, hp, fun d h => (hc d h).1, fun d h => (hc d h).2.1,
      fun d h => (hc d h).2.2, ha, hk, fun t ht c hc => ?_, hs⟩, rfl⟩
    exact hr (t, c) (mem_productions.mpr ⟨ht, hc⟩)
  · rintro ⟨ds, rfl, h, rfl⟩
    refine ⟨by simpa using h.nonempty, ds, ⟨rfl, h.names, by simp, h.plain⟩, ?_, h.fresh,
      ⟨h.constructors, by simp, fun p hp => ?_⟩, h.annotations, rfl⟩
    · exact fun d hd => ⟨h.inhabited d hd, h.proper d hd, h.operands d hd⟩
    · obtain ⟨ht, hc⟩ := mem_productions.mp hp
      exact h.refs p.1 ht p.2 hc

end Specification

end BoltzmannSampling
