import Mathlib
import BoltzmannSampling.Proofs.Derivation.Basic
import BoltzmannSampling.Specification.Productive

/-!
The least fixed points of the checker and the derivations they stand for: a type is found exactly if it has a
derivation by constructors of the class. Hence productive types are those with a derivation, and nullable ones those
with a derivation of size zero.
-/

namespace BoltzmannSampling

inductive Derivation.Uses (counts : Constructor Symbol → Bool) : Derivation → Prop
  | node {t c parts} (choice : counts c) (below : ∀ d ∈ parts, Uses counts d) : Uses counts (.node t c parts)

theorem Derivation.uses_all (d : Derivation) : d.Uses fun _ => true := by
  induction d using Derivation.induction
  case node hi => exact .node rfl hi

theorem Derivation.uses_empty {d : Derivation} : d.Uses (fun c => c.size == 0) ↔ d.size = 0 := by
  induction d using Derivation.induction
  case node t c parts hi =>
    rw [Derivation.size_node, Nat.add_eq_zero_iff, List.sum_eq_zero_iff, List.forall_mem_map]
    constructor
    · rintro ⟨hc, hp⟩
      exact ⟨by simpa using hc, fun d hd => (hi d hd).mp (hp d hd)⟩
    · rintro ⟨hc, hp⟩
      exact .node (by simpa using hc) fun d hd => (hi d hd).mpr (hp d hd)

namespace Specification

variable {s : Specification} {counts : Constructor Symbol → Bool} {found : List String} {T : String}

-- What a pass does at one constructor.
def adopt (counts : Constructor Symbol → Bool) (found : List String) (p : TypeDef × Constructor Symbol) :
    List String :=
  if !found.contains p.1.name && counts p.2 && p.2.refs.all (found.contains ·) then found ++ [p.1.name] else found

theorem pass_eq : s.pass counts found = s.productions.foldl (adopt counts) found := rfl

theorem adopt_cases (counts : Constructor Symbol → Bool) (found : List String) (p : TypeDef × Constructor Symbol) :
    (adopt counts found p = found ∧ (counts p.2 → (∀ r ∈ p.2.refs, r ∈ found) → p.1.name ∈ found)) ∨
    (adopt counts found p = found ++ [p.1.name] ∧ p.1.name ∉ found ∧ counts p.2 ∧ ∀ r ∈ p.2.refs, r ∈ found) := by
  by_cases h : !found.contains p.1.name && counts p.2 && p.2.refs.all (found.contains ·)
  case pos =>
    right
    refine ⟨if_pos h, ?_⟩
    simpa [and_assoc] using h
  case neg =>
    left
    refine ⟨if_neg h, fun hc hr => ?_⟩
    by_contra hn
    exact h (by simpa [hn, hc] using hr)

theorem prefix_adopt (p : TypeDef × Constructor Symbol) : found <+: adopt counts found p := by
  rcases adopt_cases counts found p with ⟨h, -⟩ | ⟨h, -⟩ <;> simp [h]

theorem prefix_foldl_adopt (counts : Constructor Symbol → Bool) (found : List String)
    (ps : List (TypeDef × Constructor Symbol)) : found <+: ps.foldl (adopt counts) found := by
  induction ps generalizing found
  case nil          => exact List.prefix_rfl
  case cons p ps hi => exact (prefix_adopt p).trans (hi _)

-- What has been found stays in front, so a pass that finds nothing is told by the length.
theorem pass_eq_of_length (h : (s.pass counts found).length = found.length) : s.pass counts found = found :=
  ((prefix_foldl_adopt counts found s.productions).eq_of_length h.symm).symm

theorem foldl_adopt_invariant {motive : List String → Prop} {ps : List (TypeDef × Constructor Symbol)}
    (step : ∀ p ∈ ps, ∀ found, motive found → motive (adopt counts found p)) (h : motive found) :
    motive (ps.foldl (adopt counts) found) := by
  induction ps generalizing found
  case nil => exact h
  case cons p ps hi =>
    exact hi (fun q hq => step q <| List.mem_cons_of_mem _ hq) (step p List.mem_cons_self found h)

theorem passes_invariant {motive : List String → Prop}
    (step : ∀ p ∈ s.productions, ∀ found, motive found → motive (adopt counts found p)) {rounds : Nat} (h : motive found) :
    motive (s.passes counts rounds found) := by
  induction rounds generalizing found
  case zero => exact h
  case succ hi =>
    simp only [passes]
    split
    · exact h
    · exact hi (foldl_adopt_invariant step h)

def Closed (s : Specification) (counts : Constructor Symbol → Bool) (found : List String) : Prop :=
  ∀ p ∈ s.productions, counts p.2 → (∀ r ∈ p.2.refs, r ∈ found) → p.1.name ∈ found

-- A pass that adds no type has met every constructor with what had been found before.
theorem closed_of_fixed (h : s.pass counts found = found) : s.Closed counts found := by
  suffices ∀ ps : List (TypeDef × Constructor Symbol), ps.foldl (adopt counts) found = found →
      ∀ p ∈ ps, counts p.2 → (∀ r ∈ p.2.refs, r ∈ found) → p.1.name ∈ found from this _ h
  intro ps h p hp
  induction ps
  case nil => simp at hp
  case cons q ps hi =>
    have hl := (prefix_foldl_adopt counts (adopt counts found q) ps).length_le
    rw [List.foldl_cons] at h
    rcases adopt_cases counts found q with ⟨he, hc⟩ | ⟨he, -⟩
    · rcases List.mem_cons.mp hp with rfl | hp
      · exact hc
      · exact hi (by rwa [he] at h) hp
    · rw [h, he, List.length_append, List.length_singleton] at hl
      omega

-- Types found so far, each of them once.
def Known (s : Specification) (found : List String) : Prop :=
  found.Nodup ∧ ∀ name ∈ found, name ∈ s.names

theorem Known.length_le (h : s.Known found) : found.length ≤ s.names.length :=
  (h.1.subperm h.2).length_le

theorem Known.pass (h : s.Known found) : s.Known (s.pass counts found) := by
  refine foldl_adopt_invariant (motive := s.Known) ?_ h
  intro ⟨t, c⟩ hp found ⟨hd, hk⟩
  rcases adopt_cases counts found (t, c) with ⟨he, -⟩ | ⟨he, hn, -⟩ <;> rw [he]
  · exact ⟨hd, hk⟩
  · refine ⟨List.nodup_append'.mpr ⟨hd, List.nodup_singleton _, by simpa using hn⟩, ?_⟩
    intro name hm
    rcases List.mem_append.mp hm with hm | hm
    · exact hk name hm
    · exact List.mem_singleton.mp hm ▸ name_mem_names (mem_productions.mp hp).1

-- The search run to its end: pass after pass until one finds nothing. That one is counted too.
inductive Settles (s : Specification) (counts : Constructor Symbol → Bool) : List String → Nat → List String → Prop
  | still {found : List String} (fixed : s.pass counts found = found) : Settles s counts found 1 found
  | more {found : List String} {n result} (grown : s.pass counts found ≠ found)
      (later : Settles s counts (s.pass counts found) n result) : Settles s counts found (n + 1) result

theorem Settles.closed {n : Nat} {result : List String} (h : s.Settles counts found n result) :
    s.Closed counts result := by
  induction h
  case still fixed => exact closed_of_fixed fixed
  case more hi     => exact hi

theorem Settles.known {n : Nat} {result : List String} (h : s.Settles counts found n result) (k : s.Known found) :
    s.Known result := by
  induction h
  case still   => exact k
  case more hi => exact hi k.pass

-- Every pass but the last finds a type, so the passes end before their bound does.
theorem passes_settles {rounds : Nat} (known : s.Known found) (enough : s.names.length < rounds + found.length) :
    ∃ n, n + found.length ≤ s.names.length + 1 ∧ s.Settles counts found n (s.passes counts rounds found) := by
  have hl := known.length_le
  induction rounds generalizing found
  case zero => omega
  case succ rounds hi =>
    simp only [passes]
    split
    case isTrue he => exact ⟨1, by omega, .still <| pass_eq_of_length he⟩
    case isFalse he =>
      have := (prefix_foldl_adopt counts found s.productions).length_le
      rw [← pass_eq] at this
      have known : s.Known (s.pass counts found) := known.pass
      have ⟨n, hn, later⟩ := hi known (by omega) known.length_le
      exact ⟨n + 1, by omega, .more (fun h => he <| congrArg List.length h) later⟩

theorem leastFixedPoint_settles (s : Specification) (counts : Constructor Symbol → Bool) :
    ∃ n ≤ s.types.length + 1, s.Settles counts [] n (s.leastFixedPoint counts) := by
  have enough : s.names.length < s.types.length + 1 + ([] : List String).length := by simp [names]
  obtain ⟨n, hn, h⟩ := @passes_settles s counts [] _ ⟨List.nodup_nil, by simp⟩ enough
  exact ⟨n, by simpa [names] using hn, h⟩

theorem leastFixedPoint_closed : s.Closed counts (s.leastFixedPoint counts) :=
  have ⟨_, _, h⟩ := leastFixedPoint_settles s counts
  h.closed

theorem leastFixedPoint_nodup : (s.leastFixedPoint counts).Nodup :=
  have ⟨_, _, h⟩ := leastFixedPoint_settles s counts
  (h.known ⟨List.nodup_nil, by simp⟩).1

theorem derivation_of_mem_passes {rounds : Nat} (h : T ∈ s.passes counts rounds []) :
    ∃ d ∈ s.derivations T, d.Uses counts := by
  refine passes_invariant (motive := fun found => ∀ T ∈ found, ∃ d ∈ s.derivations T, d.Uses counts) ?_ (by simp) T h
  rintro ⟨t, c⟩ hp found hf
  obtain ⟨ht, hc⟩ := mem_productions.mp hp
  rcases adopt_cases counts found (t, c) with ⟨he, -⟩ | ⟨he, -, hu, hr⟩ <;> rw [he]
  · exact hf
  · intro T hm
    rcases List.mem_append.mp hm with hm | hm
    · exact hf T hm
    · cases List.mem_singleton.mp hm
      have ⟨parts, hp⟩ := List.Forall₂.of_exists fun r hm => hf r (hr r hm)
      refine ⟨.node t c parts, ?_, .node hu fun d hd => ?_⟩
      · exact node_mem_derivations.mpr ⟨⟨ht, rfl⟩, hc, hp.imp fun _ _ h => h.1⟩
      · have ⟨_, _, h⟩ := hp.exists_left hd
        exact h.2

theorem mem_leastFixedPoint : T ∈ s.leastFixedPoint counts ↔ ∃ d ∈ s.derivations T, d.Uses counts := by
  constructor
  · exact derivation_of_mem_passes
  · rintro ⟨d, hd, hu⟩
    refine derivations_induction (motive := fun T d => d.Uses counts → T ∈ s.leastFixedPoint counts) ?_ hd hu
    rintro t c parts ht hc hp ⟨hu, below⟩
    refine leastFixedPoint_closed (t, c) (mem_productions.mpr ⟨ht, hc⟩) hu fun r hr => ?_
    obtain ⟨d, hd, -, hi⟩ := hp.exists_right hr
    exact hi (below d hd)

theorem mem_productive : T ∈ s.productive ↔ (s.derivations T).Nonempty := by
  simp [productive, mem_leastFixedPoint, Derivation.uses_all, Set.Nonempty]

theorem mem_nullable : T ∈ s.nullable ↔ ∃ d ∈ s.derivations T, d.size = 0 := by
  simp [nullable, mem_leastFixedPoint, Derivation.uses_empty]

end Specification

end BoltzmannSampling
