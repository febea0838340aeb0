import Mathlib
import BoltzmannSampling.Proofs.Checks
import BoltzmannSampling.Specification.Declaration

/-!
What the checks of a system establish: names differ, references name types of the table, and an auxiliary type is
the one of its modifier, over an atom or a declared type.
-/

namespace BoltzmannSampling

namespace Specification

variable {s : Specification}

structure Resolved (s : Specification) : Prop where
  names        : s.names.Nodup
  constructors : s.constructorNames.Nodup
  refs         : ∀ t ∈ s.types, ∀ c ∈ t.constructors, ∀ r ∈ c.refs, r ∈ s.names
  auxiliary    : ∀ t ∈ s.types, ∀ m e, t.origin = .auxiliary m e → t = .auxiliary m e
  element      : ∀ m name, .auxiliary m (.ref name) ∈ s.types → ∃ u ∈ s.userTypes, u.name = name

theorem mem_productions {t : TypeDef} {c : Constructor Symbol} :
    (t, c) ∈ s.productions ↔ t ∈ s.types ∧ c ∈ t.constructors := by
  simp [productions]

theorem mem_names {name : String} : name ∈ s.names ↔ ∃ t ∈ s.types, t.name = name := by
  simp [names]

theorem name_mem_names {t : TypeDef} (h : t ∈ s.types) : t.name ∈ s.names :=
  mem_names.mpr ⟨t, h, rfl⟩

namespace Resolved

theorem type_unique (h : s.Resolved) {t u : TypeDef} (ht : t ∈ s.types) (hu : u ∈ s.types)
    (hn : t.name = u.name) : t = u :=
  List.inj_on_of_nodup_map h.names ht hu hn

theorem constructor_unique (h : s.Resolved) {t u : TypeDef} {c d : Constructor Symbol}
    (ht : t ∈ s.types) (hc : c ∈ t.constructors) (hu : u ∈ s.types) (hd : d ∈ u.constructors)
    (hn : c.name = d.name) : t = u ∧ c = d := by
  have := List.inj_on_of_nodup_map h.constructors (mem_productions.mpr ⟨ht, hc⟩)
    (mem_productions.mpr ⟨hu, hd⟩) hn
  simpa using this

theorem type?_eq (h : s.Resolved) {t : TypeDef} (ht : t ∈ s.types) : s.type? t.name = some t := by
  have ⟨u, hu⟩ : ∃ u, s.type? t.name = some u := Option.isSome_iff_exists.mp <| by
    simp only [type?, List.find?_isSome]
    exact ⟨t, ht, by simp⟩
  have hn : u.name = t.name := by simpa using List.find?_some hu
  rw [hu, h.type_unique (List.mem_of_find?_eq_some hu) ht hn]

end Resolved

theorem firstOfEachName_subset {ts : List TypeDef} {t : TypeDef} (h : t ∈ firstOfEachName ts) : t ∈ ts := by
  induction ts
  case nil => simp [firstOfEachName] at h
  case cons u ts hi =>
    simp only [firstOfEachName, List.mem_cons, List.mem_filter] at h
    rcases h with h | ⟨h, -⟩
    · exact h ▸ List.mem_cons_self
    · exact List.mem_cons_of_mem _ (hi h)

theorem firstOfEachName_nodup (ts : List TypeDef) : ((firstOfEachName ts).map TypeDef.name).Nodup := by
  induction ts
  case nil => exact List.nodup_nil
  case cons t ts hi =>
    rw [firstOfEachName, List.map_cons, List.nodup_cons]
    constructor
    · simp
    · exact hi.sublist (List.filter_sublist.map _)

-- An auxiliary type of the table comes from a modifier among the arguments of some declaration.
theorem mem_auxiliaries {ds : List Declaration} {t : TypeDef} (h : t ∈ auxiliaries ds) :
    ∃ d ∈ ds, ∃ c ∈ d.proper, ∃ m e, .many m e ∈ c.args ∧ t = .auxiliary m e := by
  have h := firstOfEachName_subset h
  simp only [List.mem_flatMap, List.mem_filterMap] at h
  obtain ⟨d, hd, c, hc, a, ha, ht⟩ := h
  cases a
  case plain => simp [Arg.auxiliary?] at ht
  case many m e =>
    simp only [Arg.auxiliary?, Option.some.injEq] at ht
    exact ⟨d, hd, c, hc, m, e, ha, ht.symm⟩

theorem checkNames_ok {seen : List String} {entries : List (Except Json Declaration)} {ds : List Declaration}
    (h : checkNames seen entries = .ok ds) :
    (ds.map Declaration.name).Nodup ∧ ∀ d ∈ ds, d.name ∉ seen := by
  induction entries generalizing seen ds
  case nil =>
    simp only [checkNames, Except.ok.injEq] at h
    simp [← h]
  case cons entry entries hi =>
    cases entry
    case error => simp [checkNames] at h
    case ok d =>
      simp only [checkNames] at h
      split at h <;> try split at h
      case isTrue | isTrue => simp at h
      case isFalse.isFalse fresh _ =>
        split at h <;> simp only [Except.ok.injEq, reduceCtorEq] at h
        case _ rest hr =>
          have ⟨hd, hs⟩ := hi hr
          subst h
          simp only [List.contains_eq_mem, decide_eq_true_eq, List.mem_cons, not_or] at fresh hs
          refine ⟨?_, ?_⟩
          · rw [List.map_cons, List.nodup_cons]
            exact ⟨fun hm => have ⟨e, he, hn⟩ := List.mem_map.mp hm; (hs e he).1 hn, hd⟩
          · rintro e (_ | ⟨_, he⟩)
            · exact fresh
            · exact (hs e he).2

theorem checkProductions_ok {names seen : List String} {ps : List (TypeDef × Constructor Symbol)}
    (h : checkProductions names seen ps = .ok ()) :
    (ps.map (·.2.name)).Nodup ∧ (∀ p ∈ ps, p.2.name ∉ seen) ∧ ∀ p ∈ ps, ∀ r ∈ p.2.refs, r ∈ names := by
  induction ps generalizing seen
  case nil => simp
  case cons p ps hi =>
    obtain ⟨t, c⟩ := p
    simp only [checkProductions] at h
    split at h
    case isTrue => simp at h
    case isFalse fresh =>
      split at h
      case h_1 => simp at h
      case h_2 found =>
        have ⟨hd, hs, hr⟩ := hi h
        simp only [List.contains_eq_mem, decide_eq_true_eq, List.mem_cons, not_or] at fresh hs
        simp only [List.find?_eq_none, List.contains_eq_mem, Bool.not_eq_true', decide_eq_false_iff_not,
          Decidable.not_not] at found
        refine ⟨?_, ?_, ?_⟩
        · rw [List.map_cons, List.nodup_cons]
          exact ⟨fun hm => have ⟨q, hq, hn⟩ := List.mem_map.mp hm; (hs q hq).1 hn, hd⟩
        · rintro q (_ | ⟨_, hq⟩)
          · exact fresh
          · exact (hs q hq).2
        · rintro q (_ | ⟨_, hq⟩)
          · exact found
          · exact hr q hq

theorem checkOperand_ok {users : List String} {d : Declaration} {c : Constructor Arg} {m : Modifier} {name : String}
    (h : checkOperand users d c (.many m (.ref name)) = .ok ()) : name ∈ users := by
  simp only [checkOperand] at h
  split at h
  case isTrue h' => simpa using h'
  case isFalse   => simp at h

theorem checkDeclaration_ok {users : List String} {d : Declaration} (h : checkDeclaration users d = .ok ()) :
    ∀ c ∈ d.proper, ∀ m name, .many m (.ref name) ∈ c.args → name ∈ users := by
  intro c hc m name ha
  simp only [checkDeclaration] at h
  split at h
  case isTrue => simp at h
  case isFalse =>
    obtain ⟨entry, he, hc⟩ := List.mem_filterMap.mp hc
    cases entry <;> simp only [Except.toOption, reduceCtorEq, Option.some.injEq] at hc
    case ok => exact checkOperand_ok <| Checks.forM_eq_ok.mp (hc ▸ Checks.forM_eq_ok.mp h _ he) _ ha

theorem checkAuxiliary_ok {users : List String} {t : TypeDef} (h : checkAuxiliary users t = .ok ()) :
    t.name ∉ users := by
  simp only [checkAuxiliary] at h
  split at h
  case isTrue       => simp at h
  case isFalse fresh => simpa using fresh

-- The declarations that a system is made of, with what each check has found.
theorem of_ofDeclarations {entries : List (Except Json Declaration)} {annotations : List (String × Json)}
    (h : ofDeclarations entries annotations = .ok s) :
    ∃ ds, checkNames [] entries = .ok ds ∧ (∀ d ∈ ds, checkDeclaration (ds.map Declaration.name) d = .ok ()) ∧
      (∀ t ∈ auxiliaries ds, checkAuxiliary (ds.map Declaration.name) t = .ok ()) ∧ s.types = table ds ∧
      checkProductions s.names [] s.productions = .ok () := by
  simp only [ofDeclarations] at h
  split at h
  case isTrue => simp [bind, Except.bind] at h
  case isFalse =>
    simp only [Checks.bind_eq_ok, Except.ok.injEq] at h
    obtain ⟨ds, hn, _, hd, _, ha, _, hp, _, -, hs⟩ := h
    cases hs
    exact ⟨ds, hn, Checks.forM_eq_ok.mp hd, Checks.forM_eq_ok.mp ha, rfl, hp⟩

theorem resolved {entries : List (Except Json Declaration)} {annotations : List (String × Json)}
    (h : ofDeclarations entries annotations = .ok s) : s.Resolved := by
  obtain ⟨ds, hn, hd, ha, ht, hp⟩ := of_ofDeclarations h
  obtain ⟨hdistinct, -⟩ := checkNames_ok hn
  obtain ⟨hc, -, hr⟩ := checkProductions_ok hp
  have hdeclared : (ds.map declaredType).map TypeDef.name = ds.map Declaration.name := by simp [declaredType]
  refine ⟨?names, hc, ?refs, ?auxiliary, ?element⟩
  case names =>
    rw [names, ht, table, List.map_append, List.nodup_append', hdeclared]
    refine ⟨hdistinct, firstOfEachName_nodup _, fun name hu hx => ?_⟩
    obtain ⟨t, hm, rfl⟩ := List.mem_map.mp hx
    exact checkAuxiliary_ok (ha t hm) hu
  case refs =>
    intro t hm c hc
    exact hr (t, c) (mem_productions.mpr ⟨hm, hc⟩)
  case auxiliary =>
    intro t hm m e ho
    rw [ht, table, List.mem_append, List.mem_map] at hm
    rcases hm with ⟨d, -, rfl⟩ | hm
    · simp [declaredType] at ho
    · obtain ⟨-, -, -, -, m', e', -, rfl⟩ := mem_auxiliaries hm
      simp only [TypeDef.auxiliary, Origin.auxiliary.injEq] at ho
      rw [ho.1, ho.2]
  case element =>
    intro m name hm
    rw [ht, table, List.mem_append, List.mem_map] at hm
    rcases hm with ⟨d, -, hd⟩ | hm
    · simp [declaredType, TypeDef.auxiliary] at hd
    · obtain ⟨d, hmd, c, hmc, m', e', hma, he⟩ := mem_auxiliaries hm
      have he : e' = .ref name := by
        simp only [TypeDef.auxiliary, TypeDef.mk.injEq, Origin.auxiliary.injEq] at he
        exact he.2.2.2.symm
      obtain ⟨u, hu, rfl⟩ := List.mem_map.mp <| checkDeclaration_ok (hd d hmd) c hmc m' name (he ▸ hma)
      refine ⟨declaredType u, ?_, rfl⟩
      simp only [userTypes, List.mem_filter, ht, table, List.mem_append, List.mem_map]
      exact ⟨.inl ⟨u, hu, rfl⟩, rfl⟩

end Specification

end BoltzmannSampling
