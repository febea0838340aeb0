import Mathlib
import BoltzmannSampling.Proofs.Derivation.WellFounded
import BoltzmannSampling.Proofs.Specification.Table

/-!
What a check reports. Errors name the types without derivations and those on cycles along which a derivation can be
wrapped without getting any larger, each once; the warnings do not depend on them. The strict check raises the error of
the first of these types in the table, and if there is none, both checks have the same result.
-/

namespace BoltzmannSampling

namespace Specification

variable {s : Specification} {a b T : String} {f : Flaw}

-- A constructor of no size wraps the derivations of one type, and nothing else, into derivations of another.
structure Wraps (s : Specification) (a b : String) : Prop where
  edge  : ∃ t c, (t ∈ s.types ∧ t.name = a) ∧ c ∈ t.constructors ∧ c.size = 0 ∧
    ∃ pre post, c.refs = pre ++ b :: post ∧ ∀ r ∈ pre ++ post, ∃ d ∈ s.derivations r, d.size = 0
  outer : (s.derivations a).Nonempty
  inner : (s.derivations b).Nonempty

inductive Flawed (s : Specification) (T : String) : Flaw → Prop
  | nonProductive (known : T ∈ s.names) (empty : s.derivations T = ∅) : Flawed s T .nonProductive
  | zeroSizeCycle (cycle : Relation.TransGen s.Wraps T T) : Flawed s T .zeroSizeCycle

theorem wraps_iff :
    s.Wraps a b ↔ (s.zeroSizeGraph s.nullable).Edge a b ∧ a ∈ s.productive ∧ b ∈ s.productive := by
  simp only [zeroSizeGraph_edge, mem_nullable, mem_productive]
  constructor
  · rintro ⟨edge, outer, inner⟩
    exact ⟨edge, outer, inner⟩
  · rintro ⟨edge, outer, inner⟩
    exact ⟨edge, outer, inner⟩

theorem productive_of_cycle (cycle : Relation.TransGen s.Wraps T T) : T ∈ s.names ∧ T ∈ s.productive := by
  have ⟨_, first, _⟩ := Relation.TransGen.head'_iff.mp cycle
  have ⟨t, _, ⟨ht, hn⟩, _⟩ := first.edge
  exact ⟨hn ▸ name_mem_names ht, mem_productive.mpr first.outer⟩

theorem Flawed.known (h : s.Flawed T f) : T ∈ s.names := by
  cases h
  case nonProductive known _ => exact known
  case zeroSizeCycle cycle   => exact (productive_of_cycle cycle).1

theorem mem_flaws : (T, f) ∈ s.flaws ↔ s.Flawed T f := by
  cases f
  case nonProductive =>
    have listed : (T, Flaw.nonProductive) ∈ s.flaws ↔ T ∈ s.names ∧ T ∉ s.productive := by simp [flaws]
    rw [listed, mem_productive, Set.not_nonempty_iff_eq_empty]
    constructor
    · rintro ⟨known, empty⟩
      exact .nonProductive known empty
    · rintro ⟨known, empty⟩
      exact ⟨known, empty⟩
  case zeroSizeCycle =>
    have listed : (T, Flaw.zeroSizeCycle) ∈ s.flaws ↔ T ∈ s.names ∧ T ∈ s.zeroSizeCyclic := by simp [flaws]
    have wraps : s.Wraps = fun a b => (s.zeroSizeGraph s.nullable).Edge a b ∧ a ∈ s.productive ∧ b ∈ s.productive := by
      funext a b
      exact propext wraps_iff
    rw [listed, mem_zeroSizeCyclic, ← wraps]
    constructor
    · rintro ⟨_, _, cycle⟩
      exact .zeroSizeCycle cycle
    · rintro (_ | ⟨cycle⟩)
      exact ⟨(productive_of_cycle cycle).1, productive_of_cycle cycle, cycle⟩

-- Types on cycles have derivations, so that the two kinds of flaws exclude each other.
theorem nodup_flaws (distinct : s.names.Nodup) : (s.flaws.map (·.1)).Nodup := by
  have first (f : Flaw) (p : String → Bool) : ((s.names.filter p).map (·, f)).map (·.1) = s.names.filter p := by
    simp [Function.comp_def]
  rw [flaws, List.map_append, first, first, List.nodup_append']
  refine ⟨distinct.filter _, distinct.filter _, fun T unproductive cyclic => ?_⟩
  have cyclic : T ∈ s.zeroSizeCyclic := by simpa using (List.mem_filter.mp cyclic).2
  have productive := (mem_zeroSizeCyclic.mp cyclic).1.2
  simp [productive] at unproductive

theorem firstFlaw?_eq_none : s.firstFlaw? s.flaws = none ↔ ∀ T f, ¬s.Flawed T f := by
  simp only [firstFlaw?, List.findSome?_eq_none_iff, List.find?_eq_none, beq_iff_eq, ← mem_flaws]
  constructor
  · intro h T f hf
    exact h T (mem_flaws.mp hf).known (T, f) hf rfl
  · intro h name _ e he
    exact absurd he (h e.1 e.2)

theorem firstFlaw?_eq_some (distinct : s.names.Nodup) (h : s.firstFlaw? s.flaws = some (T, f)) :
    s.Flawed T f ∧ ∃ i, s.index? T = some i ∧ ∀ U g, s.Flawed U g → ∃ j ≥ i, s.index? U = some j := by
  obtain ⟨before, name, after, table, found, clean⟩ := List.findSome?_eq_some_iff.mp h
  obtain rfl : T = name := by simpa using List.find?_some found
  refine ⟨mem_flaws.mp (List.mem_of_find?_eq_some found), before.length, ?_, fun U g flawed => ?_⟩
  · rw [index?_eq_some distinct, table, List.getElem?_append_right le_rfl, Nat.sub_self, List.getElem?_cons_zero]
  · have ⟨j, hj⟩ := List.mem_iff_getElem?.mp flawed.known
    refine ⟨j, not_lt.mp fun early => ?_, (index?_eq_some distinct).mpr hj⟩
    rw [table, List.getElem?_append_left early] at hj
    exact List.find?_eq_none.mp (clean U (List.mem_of_getElem? hj)) (U, g) (mem_flaws.mpr flawed) (beq_self_eq_true _)

section Warnings

variable {t : TypeDef} {e : Finding} {reachable : List String}

theorem mem_typeWarnings : e ∈ s.typeWarnings reachable t ↔ e = .dead t.name s.initial ∧ t.name ∉ reachable ∨
    e = .trivial t.name ∧ ∃ c, t.constructors = [c] ∧ c.refs = [] := by
  rw [typeWarnings, List.mem_append]
  refine or_congr ?dead ?trivial
  case dead    => by_cases h : t.name ∈ reachable <;> simp [h]
  case trivial =>
    split
    case h_1 c single => by_cases h : c.refs = [] <;> simp [single, h]
    case h_2 several  => simpa using fun _ c single => absurd single (several c)

-- The settings that are assumed, since no annotation gives them.
def missing (s : Specification) : List (String × Nat) :=
  assumed.filter fun (key, _) => (Assoc.get? s.annotations key).isNone

theorem mem_warnings : e ∈ s.warnings ↔ (∃ u ∈ s.userTypes, e ∈ s.typeWarnings s.reachable u) ∨
    s.missing ≠ [] ∧ e = .metadata (s.missing.map fun (key, value) => "@" ++ key ++ " = " ++ toString value) := by
  rw [warnings, List.mem_append, List.mem_flatMap]
  refine or_congr_right ?_
  split
  case isTrue none =>
    have none : s.missing = [] := List.isEmpty_iff.mp none
    simp [none]
  case isFalse some =>
    have some : s.missing ≠ [] := mt List.isEmpty_iff.mpr some
    rw [List.mem_singleton, and_iff_right some]
    rfl

theorem severity_warnings (h : e ∈ s.warnings) : e.severity = .warning := by
  rcases mem_warnings.mp h with ⟨u, _, h⟩ | ⟨_, rfl⟩
  · rcases mem_typeWarnings.mp h with ⟨rfl, _⟩ | ⟨rfl, _⟩ <;> rfl
  · rfl

end Warnings

-- What a check reports, whether it finds flaws or none.
def findings (s : Specification) : List Finding := s.flaws.map (fun (T, f) => .flaw T f) ++ s.warnings

theorem errors_of_findings {c : Checked} (h : c.findings = s.findings) :
    c.errors = s.flaws.map (fun (T, f) => .flaw T f) ∧ c.warnings = s.warnings := by
  have flaw : ∀ e ∈ s.flaws.map fun (T, f) => Finding.flaw T f, e.severity = .error :=
    List.forall_mem_map.mpr fun _ _ => rfl
  rw [Checked.errors, Checked.warnings, h, findings, List.filter_append, List.filter_append]
  constructor
  · rw [List.filter_eq_self.mpr fun e he => by simp [flaw e he],
      List.filter_eq_nil_iff.mpr fun e he => by simp [severity_warnings he], List.append_nil]
  · rw [List.filter_eq_nil_iff.mpr fun e he => by simp [flaw e he],
      List.filter_eq_self.mpr fun e he => by simp [severity_warnings he], List.nil_append]

theorem reported_of_findings {c : Checked} (distinct : s.names.Nodup) (h : c.findings = s.findings) :
    (c.errors.map Finding.typeName?).Nodup ∧ (∀ e, e ∈ c.errors ↔ ∃ T f, e = .flaw T f ∧ s.Flawed T f) ∧
      c.warnings = s.warnings := by
  have ⟨errors, warnings⟩ := errors_of_findings h
  refine ⟨?once, fun e => ?all, warnings⟩
  case once =>
    have named : (s.flaws.map fun (T, f) => Finding.flaw T f).map Finding.typeName? = (s.flaws.map (·.1)).map some := by
      simp [Finding.typeName?]
    rw [errors, named]
    exact (nodup_flaws distinct).map (Option.some_injective _)
  case all => simp [errors, mem_flaws, eq_comm, and_comm]

theorem classify_ne_illFormed : s.classify ≠ .illFormed := by
  rw [classify]
  split <;> simp

-- The forced check reports every flawed type once, and the warnings of any check. The strict check raises the error of
-- the first flawed type in the table; if there is none, both checks agree.
theorem check_errors {entries : List (Except Json Declaration)} {annotations : List (String × Json)}
    (declared : ofDeclarations entries annotations = .ok s) :
    ∃ forced, s.check true = .ok forced ∧ (forced.errors.map Finding.typeName?).Nodup ∧
      (∀ e, e ∈ forced.errors ↔ ∃ T f, e = .flaw T f ∧ s.Flawed T f) ∧ forced.warnings = s.warnings ∧
      ((∀ T f, ¬s.Flawed T f) → s.check false = .ok forced ∧ forced.classification ≠ .illFormed) ∧
      ((∃ T f, s.Flawed T f) → forced.classification = .illFormed ∧
        ∃ T f i, s.check false = .error (.check (.illFounded T f)) ∧ s.Flawed T f ∧ s.index? T = some i ∧
          ∀ U g, s.Flawed U g → ∃ j ≥ i, s.index? U = some j) := by
  have distinct := (resolved declared).names
  cases first : s.firstFlaw? s.flaws
  case none =>
    have sound := firstFlaw?_eq_none.mp first
    have none : s.flaws = [] := List.eq_nil_iff_forall_not_mem.mpr fun e he => sound e.1 e.2 (mem_flaws.mp he)
    have checked (allowUnsafe : Bool) : s.check allowUnsafe = .ok ⟨s, s.classify, s.warnings⟩ := by rw [check, first]
    have same : s.warnings = s.findings := by simp [findings, none]
    obtain ⟨once, all, warnings⟩ := @reported_of_findings s ⟨s, s.classify, s.warnings⟩ distinct same
    refine ⟨_, checked true, once, all, warnings, fun _ => ⟨checked false, classify_ne_illFormed⟩, ?_⟩
    rintro ⟨T, f, flawed⟩
    exact absurd flawed (sound T f)
  case some found =>
    obtain ⟨flawed, i, least⟩ := firstFlaw?_eq_some distinct first
    have checked (allowUnsafe : Bool) : s.check allowUnsafe =
        if allowUnsafe then .ok ⟨s, .illFormed, s.findings⟩ else .error (.check (.illFounded found.1 found.2)) := by
      rw [check, first]
      rfl
    obtain ⟨once, all, warnings⟩ := @reported_of_findings s ⟨s, .illFormed, s.findings⟩ distinct rfl
    refine ⟨_, checked true, once, all, warnings, fun sound => absurd flawed (sound _ _), fun _ => ⟨rfl, ?_⟩⟩
    exact ⟨found.1, found.2, i, checked false, flawed, least⟩

-- Two flawed types, of which the one that is reported last comes first in the table.
def loopEntries : List (Except Json Declaration) :=
  let again : Constructor Arg := ⟨"Again", [.plain (.ref "Loop")], 1, isWeight_one⟩
  let stop : Constructor Arg := ⟨"Stop", [.plain .epsilon], 1, isWeight_one⟩
  let more : Constructor Arg := ⟨"More", [.plain (.atom .unit), .plain (.ref "Endless")], 1, isWeight_one⟩
  [.ok ⟨"Loop", [.ok again, .ok stop], .text "plain", none, 0⟩, .ok ⟨"Endless", [.ok more], .text "plain", none, 0⟩]

def loops : Specification where
  types :=
    let again : Constructor Symbol := ⟨"Again", [.ref "Loop"], 1, isWeight_one⟩
    let stop : Constructor Symbol := ⟨"Stop", [.epsilon], 1, isWeight_one⟩
    let more : Constructor Symbol := ⟨"More", [.atom .unit, .ref "Endless"], 1, isWeight_one⟩
    [⟨"Loop", [again, stop], .declared none 0⟩, ⟨"Endless", [more], .declared none 0⟩]
  initial     := "Loop"
  annotations := []

theorem loops_errors : ofDeclarations loopEntries [] = .ok loops ∧
    loops.check false = .error (.check (.illFounded "Loop" .zeroSizeCycle)) ∧
    ∃ forced, loops.check true = .ok forced ∧ forced.classification = .illFormed ∧
      forced.errors.map (fun e => (e.typeName?, e.code)) =
        [(some "Endless", "NON_PRODUCTIVE"), (some "Loop", "ZERO_SIZE_CYCLE")] ∧
      loops.Flawed "Endless" .nonProductive ∧ loops.Flawed "Loop" .zeroSizeCycle := by
  have ⟨forced, checked, _, all, _, _, ill⟩ := @check_errors loops loopEntries [] rfl
  have errors : forced.errors = [.flaw "Endless" .nonProductive, .flaw "Loop" .zeroSizeCycle] := by
    cases checked
    rfl
  have flawed {T : String} {f : Flaw} (h : .flaw T f ∈ forced.errors) : loops.Flawed T f := by
    obtain ⟨_, _, ⟨⟩, flawed⟩ := (all _).mp h
    exact flawed
  have endless : loops.Flawed "Endless" .nonProductive := flawed (errors ▸ List.mem_cons_self)
  have loop : loops.Flawed "Loop" .zeroSizeCycle := flawed (errors ▸ List.mem_cons_of_mem _ List.mem_cons_self)
  exact ⟨rfl, rfl, forced, checked, (ill ⟨_, _, loop⟩).1, by rw [errors]; rfl, endless, loop⟩

end Specification

end BoltzmannSampling
