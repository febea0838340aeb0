import Mathlib
import BoltzmannSampling.Proofs.Derivation.Contents
import BoltzmannSampling.Proofs.Derivation.Flaws
import BoltzmannSampling.Proofs.Sampler.Bijection
import BoltzmannSampling.Proofs.Sampler.Interleavings
import BoltzmannSampling.Proofs.Sampler.Window

/-!
The types that a check reports as dead. No derivation of the initial type has a node of one, and hence no structure that
is drawn; every other declared type has a node in some derivation.
-/

namespace BoltzmannSampling

-- A check reports a code of a type.
def Checked.Reports (c : Checked) (code typeName : String) : Prop :=
  ∃ e ∈ c.findings, e.code = code ∧ e.typeName? = some typeName

instance {c : Checked} {code typeName : String} : Decidable (c.Reports code typeName) :=
  inferInstanceAs (Decidable (∃ e ∈ c.findings, e.code = code ∧ e.typeName? = some typeName))

namespace Specification

variable {s : Specification} {c : Checked} {u : TypeDef}

theorem findings_of_check (checked : s.check false = .ok c) : c.findings = s.warnings := by
  rw [check] at checked
  split at checked
  · cases checked
    rfl
  · cases checked

theorem dead_mem_warnings {T i : String} :
    .dead T i ∈ s.warnings ↔ (∃ u ∈ s.userTypes, u.name = T) ∧ i = s.initial ∧ T ∉ s.reachable := by
  simp only [mem_warnings, mem_typeWarnings, Finding.dead.injEq, reduceCtorEq, false_and, and_false, or_false]
  constructor
  · rintro ⟨u, hu, ⟨rfl, rfl⟩, unreachable⟩
    exact ⟨⟨u, hu, rfl⟩, rfl, unreachable⟩
  · rintro ⟨⟨u, hu, rfl⟩, rfl, unreachable⟩
    exact ⟨u, hu, ⟨rfl, rfl⟩, unreachable⟩

theorem reports_dead_iff (checked : s.check false = .ok c) (hu : u ∈ s.userTypes) :
    c.Reports "DEAD_TYPE" u.name ↔ u.name ∉ s.reachable := by
  rw [Checked.Reports, findings_of_check checked]
  constructor
  · rintro ⟨e, he, code, name⟩
    cases e
    case flaw f => cases f <;> simp [Finding.code] at code
    case dead =>
      cases name
      exact (dead_mem_warnings.mp he).2.2
    case trivial | metadata => simp [Finding.code] at code
  · intro unreachable
    exact ⟨.dead u.name s.initial, dead_mem_warnings.mpr ⟨⟨u, hu, rfl⟩, rfl, unreachable⟩, rfl, rfl⟩

-- What is not reported can be reached, since every type of an accepted system has derivations to complete a path with.
theorem reports_dead_iff_absent (resolved : s.Resolved) (checked : s.check false = .ok c) (hu : u ∈ s.userTypes) :
    c.Reports "DEAD_TYPE" u.name ↔ ∀ d ∈ s.derivations s.initial, ¬d.Contains u.name := by
  have productive (r : String) (hr : r ∈ s.names) : (s.derivations r).Nonempty :=
    mem_productive.mp (check_strict.mp ⟨c, checked⟩ r hr).1
  have reachable : u.name ∈ s.reachable ↔ s.referenceGraph.LeadsTo s.initial u.name := by
    simp [reachable, Digraph.mem_reachable, Digraph.LeadsTo]
  rw [reports_dead_iff checked hu, reachable]
  constructor
  · intro unreachable d hd contains
    exact unreachable (leadsTo_of_contains hd contains)
  · intro absent leads
    obtain ⟨d, hd, contains⟩ := exists_contains resolved productive leads (name_mem_names (List.mem_of_mem_filter hu))
    exact absent d hd contains

-- Texts of letters, beside a type that no text uses.
def pageEntries : List (Except Json Declaration) :=
  let page : Constructor Arg := ⟨"Page", [.many .sequence (.ref "Letter")], 1, isWeight_one⟩
  let mark : Constructor Arg := ⟨"Mark", [.plain (.atom .unit)], 1, isWeight_one⟩
  let gone : Constructor Arg := ⟨"Gone", [.plain (.atom .unit), .plain (.ref "Letter")], 1, isWeight_one⟩
  [.ok ⟨"Text", [.ok page], .text "plain", none, 0⟩, .ok ⟨"Letter", [.ok mark], .text "plain", none, 0⟩,
    .ok ⟨"Lost", [.ok gone], .text "plain", none, 0⟩]

def letterType : TypeDef := ⟨"Letter", [⟨"Mark", [.atom .unit], 1, isWeight_one⟩], .declared none 0⟩

def lostType : TypeDef := ⟨"Lost", [⟨"Gone", [.atom .unit, .ref "Letter"], 1, isWeight_one⟩], .declared none 0⟩

def pages : Specification where
  types :=
    [⟨"Text", [⟨"Page", [.ref "Seq(Letter)"], 1, isWeight_one⟩], .declared none 0⟩, letterType, lostType,
      .auxiliary .sequence (.ref "Letter")]
  initial     := "Text"
  annotations := []

end Specification

namespace Sampler

open Specification

variable {tuned : Tuned} {r : DrawRequest} {T : String} {found : Structure} {g g' : Generator}

theorem accepted_of_sample {s : Sampler} (drawn : s.sample r g = (.ok found, g')) : ∃ T, s.check r = .ok T := by
  cases accepted : s.check r
  case ok T    => exact ⟨T, rfl⟩
  case error e =>
    rw [sample, accepted] at drawn
    cases drawn

-- A structure that is drawn is that of a derivation of the requested type.
theorem contains_of_sample (resolved : tuned.system.Resolved) (start : r.start = some T)
    (drawn : (ofTuned tuned).sample r g = (.ok found, g')) :
    ∃ d ∈ tuned.system.derivations T, ∀ node ∈ found.walk, d.Contains node.typeName := by
  have ⟨_, accepted⟩ := accepted_of_sample drawn
  have ⟨t, user, name, same⟩ := userType_of_check accepted
  cases start.symm.trans same
  have ⟨_, _, attempted⟩ := sample_eq_attempts accepted drawn
  have ⟨_, _, a, _, done, _⟩ := attempts_ok attempted
  rw [← name] at done ⊢
  have ⟨d, hd, structure'⟩ := exists_derivation_of_draw resolved user done
  refine ⟨d, hd, fun node hn => ?_⟩
  have root := Specification.declared_of_user resolved user hd
  have walked : node.unmarked ∈ d.toStructure.walk := structure' ▸ Structure.unmarked_mem_walk hn
  rw [← Structure.typeName_unmarked]
  exact Derivation.contains_of_mem_walk (Derivation.toStructure_mem_children root) walked

theorem sampled_of_mem {s : Sampler} {count : Int} {entropy : Except Failure Entropy} {drawn : List Structure}
    (h : (s.sampleMany r count entropy).1 = .ok drawn) (hf : found ∈ drawn) :
    ∃ g g', s.sample r g = (.ok found, g') := by
  cases hs : s.grant r count entropy
  case error f =>
    rw [sampleMany_refused hs] at h
    cases h
  case ok e =>
    rw [sampleMany_granted hs] at h
    have ⟨i, _, own⟩ := Checks.exists_of_mapM h hf
    exact ⟨_, _, Prod.ext own rfl⟩

-- A declared type is reported as dead exactly if no derivation of the initial type has a node of it; then no structure
-- that is drawn has one, and otherwise some derivation has.
theorem dead_iff {entries : List (Except Json Declaration)} {annotations : List (String × Json)} {s : Specification}
    {c : Checked} {u : TypeDef} (declared : Specification.ofDeclarations entries annotations = .ok s)
    (checked : s.check false = .ok c) (hu : u ∈ s.userTypes) :
    (c.Reports "DEAD_TYPE" u.name ↔ ∀ d ∈ s.derivations s.initial, ¬d.Contains u.name) ∧
    (c.Reports "DEAD_TYPE" u.name → ∀ tuned : Tuned, tuned.system = s → ∀ r : DrawRequest, r.start = some s.initial →
      (∀ g found g', (ofTuned tuned).sample r g = (.ok found, g') → ∀ node ∈ found.walk, node.typeName ≠ u.name) ∧
      ∀ count entropy drawn, ((ofTuned tuned).sampleMany r count entropy).1 = .ok drawn →
        ∀ found ∈ drawn, ∀ node ∈ found.walk, node.typeName ≠ u.name) ∧
    (¬c.Reports "DEAD_TYPE" u.name → ∃ d ∈ s.derivations s.initial, d.Contains u.name) := by
  have resolved := Specification.resolved declared
  have absent := Specification.reports_dead_iff_absent resolved checked hu
  refine ⟨absent, ?_, fun alive => ?_⟩
  · rintro dead tuned rfl r start
    have drawn g found g' (drawn : (ofTuned tuned).sample r g = (.ok found, g')) node (hn : node ∈ found.walk) :
        node.typeName ≠ u.name := by
      have ⟨d, hd, contains⟩ := contains_of_sample resolved start drawn
      exact fun same => absent.mp dead d hd (same ▸ contains node hn)
    refine ⟨drawn, fun count entropy found many x hx => ?_⟩
    have ⟨g, g', single⟩ := sampled_of_mem many hx
    exact drawn g x g' single
  · simpa using mt absent.mpr alive

theorem pages_dead : ofDeclarations pageEntries [] = .ok pages ∧ lostType ∈ pages.userTypes ∧
    letterType ∈ pages.userTypes ∧ ∃ c, pages.check false = .ok c ∧ c.Reports "DEAD_TYPE" "Lost" ∧
      (∀ d ∈ pages.derivations "Text", ¬d.Contains "Lost") ∧ ∃ d ∈ pages.derivations "Text", d.Contains "Letter" := by
  have lost : lostType ∈ pages.userTypes := List.mem_cons_of_mem _ (List.mem_cons_of_mem _ List.mem_cons_self)
  have letter : letterType ∈ pages.userTypes := List.mem_cons_of_mem _ List.mem_cons_self
  have ⟨absent, _⟩ := @dead_iff pageEntries [] pages _ lostType rfl rfl lost
  have ⟨_, _, present⟩ := @dead_iff pageEntries [] pages _ letterType rfl rfl letter
  exact ⟨rfl, lost, letter, _, rfl, by decide, absent.mp (by decide), present (by decide)⟩

end Sampler

end BoltzmannSampling
