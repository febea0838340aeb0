import Mathlib
import BoltzmannSampling.Proofs.Digraph
import BoltzmannSampling.Proofs.Derivation.Productive
import BoltzmannSampling.Specification.Check

/-!
What the strict check decides: every type has a derivation, and only finitely many of each size. An edge of the
zero-size graph wraps a derivation into a longer one of the same size, so that a cycle gives infinitely many of one
size; conversely a part as large as the whole lies at the end of an edge, and without cycles these edges come to an
end.
-/

namespace BoltzmannSampling

namespace Specification

variable {s : Specification} {nullable before after : List String} {a b T : String} {n : Nat}

theorem mem_freeReferences : b ∈ freeReferences nullable before after ↔
    ∃ pre post, after = pre ++ b :: post ∧ ∀ r ∈ before ++ (pre ++ post), r ∈ nullable := by
  induction after generalizing before
  case nil => simp [freeReferences]
  case cons r after hi =>
    have hm : b ∈ freeReferences nullable before (r :: after) ↔
        (b = r ∧ ∀ r ∈ before ++ after, r ∈ nullable) ∨ b ∈ freeReferences nullable (before ++ [r]) after := by
      have hn : (before ++ after).all (nullable.contains ·) ↔ ∀ r ∈ before ++ after, r ∈ nullable := by
        simp only [List.all_eq_true, List.contains_iff_mem]
      rw [freeReferences]
      by_cases h : ∀ r ∈ before ++ after, r ∈ nullable
      case pos => rw [if_pos (hn.mpr h), List.mem_cons, and_iff_left h]
      case neg => rw [if_neg (mt hn.mp h), or_iff_right (h ·.2)]
    rw [hm, hi]
    constructor
    · rintro (⟨rfl, h⟩ | ⟨pre, post, he, h⟩)
      · exact ⟨[], after, rfl, h⟩
      · exact ⟨r :: pre, post, he ▸ rfl, by simpa using h⟩
    · rintro ⟨_ | ⟨r', pre⟩, post, he, h⟩
      · cases he
        exact .inl ⟨rfl, h⟩
      · cases he
        exact .inr ⟨pre, post, rfl, by simpa using h⟩

theorem zeroSizeGraph_edge : (s.zeroSizeGraph nullable).Edge a b ↔
    ∃ t c, (t ∈ s.types ∧ t.name = a) ∧ c ∈ t.constructors ∧ c.size = 0 ∧
      ∃ pre post, c.refs = pre ++ b :: post ∧ ∀ r ∈ pre ++ post, r ∈ nullable := by
  simp only [Digraph.Edge, zeroSizeGraph, List.mem_eraseDups, List.mem_flatMap]
  constructor
  · rintro ⟨⟨t, c⟩, hp, he⟩
    obtain ⟨ht, hc⟩ := mem_productions.mp hp
    split at he
    case isFalse => simp at he
    case isTrue hz =>
      obtain ⟨r, hr, heq⟩ := List.mem_map.mp he
      cases heq
      exact ⟨t, c, ⟨ht, rfl⟩, hc, hz, mem_freeReferences.mp hr⟩
  · rintro ⟨t, c, ⟨ht, hn⟩, hc, hz, h⟩
    refine ⟨(t, c), mem_productions.mpr ⟨ht, hc⟩, ?_⟩
    rw [if_pos hz, List.mem_map]
    exact ⟨b, mem_freeReferences.mpr h, by rw [hn]⟩

theorem exists_empty_parts {refs : List String} (h : ∀ r ∈ refs, r ∈ s.nullable) :
    ∃ parts, s.Forest refs parts ∧ (parts.map Derivation.size).sum = 0 := by
  have ⟨parts, hp⟩ := List.Forall₂.of_exists fun r hr => mem_nullable.mp (h r hr)
  refine ⟨parts, hp.imp fun _ _ h => h.1, List.sum_eq_zero_iff.mpr <| List.forall_mem_map.mpr fun d hd => ?_⟩
  have ⟨_, _, h⟩ := hp.exists_left hd
  exact h.2

theorem wrap (e : (s.zeroSizeGraph s.nullable).Edge a b) {d : Derivation} (hd : d ∈ s.derivations b) :
    ∃ d' ∈ s.derivations a, d'.size = d.size ∧ d.length < d'.length := by
  have ⟨t, c, ht, hc, hz, pre, post, he, hn⟩ := zeroSizeGraph_edge.mp e
  have ⟨ps, hps, zps⟩ := exists_empty_parts fun r hr => hn r <| List.mem_append_left _ hr
  have ⟨qs, hqs, zqs⟩ := exists_empty_parts fun r hr => hn r <| List.mem_append_right _ hr
  have hp : s.Forest c.refs (ps ++ d :: qs) := by
    rw [he]
    exact List.rel_append hps (.cons hd hqs)
  refine ⟨.node t c (ps ++ d :: qs), node_mem_derivations.mpr ⟨ht, hc, hp⟩, ?_, ?_⟩
  · simp [Derivation.size_node, hz, zps, zqs]
  · simp [Derivation.length_node]
    omega

theorem wrap_path (p : Relation.TransGen (s.zeroSizeGraph s.nullable).Edge a b) {d : Derivation}
    (hd : d ∈ s.derivations b) : ∃ d' ∈ s.derivations a, d'.size = d.size ∧ d.length < d'.length := by
  induction p generalizing d
  case single e => exact wrap e hd
  case tail _ e hi =>
    have ⟨x, hx, hs, hl⟩ := wrap e hd
    have ⟨y, hy, hs', hl'⟩ := hi hx
    exact ⟨y, hy, hs'.trans hs, hl.trans hl'⟩

theorem mem_zeroSizeCyclic : a ∈ s.zeroSizeCyclic ↔ (a ∈ s.names ∧ a ∈ s.productive) ∧
    Relation.TransGen (fun a b => (s.zeroSizeGraph s.nullable).Edge a b ∧ a ∈ s.productive ∧ b ∈ s.productive)
      a a := by
  have : (fun a b => (s.zeroSizeGraph s.nullable).Edge a b ∧ a ∈ s.productive ∧ b ∈ s.productive) =
      ((s.zeroSizeGraph s.nullable).restrict (s.productive.contains ·)).Edge := by
    funext a b
    simp [Digraph.restrict_edge]
  rw [zeroSizeCyclic, Digraph.mem_cyclic, this]
  simp [Digraph.restrict, zeroSizeGraph]

-- Of the derivations of one size around a cycle, none is a longest one.
theorem infinite_of_cyclic (h : a ∈ s.zeroSizeCyclic) : ∃ n, { d ∈ s.derivations a | d.size = n }.Infinite := by
  have ⟨⟨_, hp⟩, cycle⟩ := mem_zeroSizeCyclic.mp h
  have ⟨e, he⟩ := mem_productive.mp hp
  refine ⟨e.size, fun finite => ?_⟩
  have ⟨d, ⟨hd, hs⟩, longest⟩ := Set.exists_max_image _ Derivation.length finite ⟨e, he, rfl⟩
  have ⟨d', hd', hs', hl⟩ := wrap_path (cycle.lift id fun _ _ h => h.1) hd
  exact absurd (longest d' ⟨hd', hs'.trans hs⟩) hl.not_ge

theorem parts_smaller_or_edge {t : TypeDef} {c : Constructor Symbol} {parts : List Derivation}
    (h : .node t c parts ∈ s.derivations T) :
    List.Forall₂ (fun r d => d ∈ s.derivations r ∧ (d.size < (Derivation.node t c parts).size ∨
      d.size = (Derivation.node t c parts).size ∧ (s.zeroSizeGraph s.nullable).Edge T r)) c.refs parts := by
  have ⟨ht, hc, hp⟩ := node_mem_derivations.mp h
  refine hp.contexts.imp fun r d ⟨pre, post, ps, qs, he, hd, hps, hr, hqs⟩ => ⟨hr, ?_⟩
  have hs : (Derivation.node t c parts).size =
      c.size + ((ps.map Derivation.size).sum + (d.size + (qs.map Derivation.size).sum)) := by
    rw [Derivation.size_node, hd, List.map_append, List.sum_append, List.map_cons, List.sum_cons]
  by_cases hl : d.size < (Derivation.node t c parts).size
  case pos => exact .inl hl
  case neg =>
    have zps := List.sum_eq_zero_iff.mp (show (ps.map Derivation.size).sum = 0 by omega)
    have zqs := List.sum_eq_zero_iff.mp (show (qs.map Derivation.size).sum = 0 by omega)
    refine .inr ⟨by omega, zeroSizeGraph_edge.mpr ⟨t, c, ht, hc, by omega, pre, post, he, fun o ho => ?_⟩⟩
    cases List.mem_append.mp ho
    case inl ho =>
      have ⟨e, he, hm⟩ := hps.exists_right ho
      exact mem_nullable.mpr ⟨e, hm, zps _ <| List.mem_map_of_mem he⟩
    case inr ho =>
      have ⟨e, he, hm⟩ := hqs.exists_right ho
      exact mem_nullable.mpr ⟨e, hm, zqs _ <| List.mem_map_of_mem he⟩

theorem finite_of_parts (smaller : ∀ m < n, ∀ r, { d ∈ s.derivations r | d.size = m }.Finite)
    (below : ∀ r, (s.zeroSizeGraph s.nullable).Edge T r → { d ∈ s.derivations r | d.size = n }.Finite) :
    { d ∈ s.derivations T | d.size = n }.Finite := by
  let Part (r : String) (d : Derivation) : Prop :=
    d ∈ s.derivations r ∧ (d.size < n ∨ d.size = n ∧ (s.zeroSizeGraph s.nullable).Edge T r)
  have parts (r : String) : { d | Part r d }.Finite := by
    have hs : (⋃ m ∈ Set.Iio n, { d ∈ s.derivations r | d.size = m }).Finite :=
      (Set.finite_Iio n).biUnion fun m hm => smaller m hm r
    by_cases e : (s.zeroSizeGraph s.nullable).Edge T r
    case pos => exact (hs.union (below r e)).subset fun d ⟨hd, h⟩ => by simpa [hd, e] using h
    case neg => exact hs.subset fun d ⟨hd, h⟩ => by simpa [hd, e] using h
  have trees : (⋃ p ∈ { p | p ∈ s.productions }, Derivation.node p.1 p.2 '' { parts | List.Forall₂ Part p.2.refs parts }).Finite :=
    (List.finite_toSet s.productions).biUnion fun p _ =>
      (List.Forall₂.finite fun r _ => parts r).image _
  refine trees.subset fun | .node t c ps, ⟨hd, hn⟩ => ?_
  have ⟨⟨ht, _⟩, hc, _⟩ := node_mem_derivations.mp hd
  have hp := hn ▸ parts_smaller_or_edge hd
  exact Set.mem_biUnion (mem_productions.mpr ⟨ht, hc⟩) ⟨ps, hp, rfl⟩

-- Smaller parts come first, and among parts of one size those further down the edges.
theorem finite_of_acyclic (acyclic : ∀ a, ¬Relation.TransGen (s.zeroSizeGraph s.nullable).Edge a a)
    (n : Nat) (T : String) : { d ∈ s.derivations T | d.size = n }.Finite := by
  induction n using Nat.strong_induction_on generalizing T
  case h n smaller =>
    let Below (b a : String) : Prop := Relation.TransGen (s.zeroSizeGraph s.nullable).Edge a b
    have : IsStrictOrder String Below :=
      { irrefl := acyclic
        trans  := fun _ _ _ h h' => h'.trans h }
    have descent : { a | a ∈ s.names }.WellFoundedOn Below := (List.finite_toSet s.names).wellFoundedOn
    have outside (r : String) (hr : r ∉ s.names) : { d ∈ s.derivations r | d.size = n }.Finite := by
      refine Set.finite_empty.subset fun | .node t c ps, ⟨hd, _⟩ => hr ?_
      have ⟨⟨ht, hn⟩, _⟩ := node_mem_derivations.mp hd
      exact hn ▸ name_mem_names ht
    by_cases hT : T ∈ s.names
    case neg => exact outside T hT
    case pos =>
      refine descent.induction (P := fun a => { d ∈ s.derivations a | d.size = n }.Finite) hT fun a _ hi => finite_of_parts smaller fun r e => ?_
      by_cases hr : r ∈ s.names
      case pos => exact hi r hr (.single e)
      case neg => exact outside r hr

theorem check_strict : (∃ c, s.check false = .ok c) ↔
    ∀ name ∈ s.names, name ∈ s.productive ∧ name ∉ s.zeroSizeCyclic := by
  have hf : (∃ c, s.check false = .ok c) ↔ s.firstFlaw? s.flaws = none := by
    simp only [check]
    split
    case _ h => simp [h]
    case _ h => simp [h]
  simp only [hf, firstFlaw?, List.findSome?_eq_none_iff, List.find?_eq_none, flaws, List.mem_append, List.mem_map,
    List.mem_filter]
  constructor
  · intro h name hn
    have := h name hn
    constructor
    · by_contra hp
      exact h name hn (name, .nonProductive) (.inl ⟨name, ⟨hn, by simpa using hp⟩, rfl⟩) (by simp)
    · intro hc
      exact h name hn (name, .zeroSizeCycle) (.inr ⟨name, ⟨hn, by simpa using hc⟩, rfl⟩) (by simp)
  · rintro h name hn _ (⟨a, ⟨ha, hp⟩, rfl⟩ | ⟨a, ⟨ha, hc⟩, rfl⟩)
    · simp [(h a ha).1] at hp
    · simp [(h a ha).2] at hc

theorem check_strict_iff_wellFounded {entries : List (Except Json Declaration)} {annotations : List (String × Json)}
    (h : ofDeclarations entries annotations = .ok s) :
    (∃ c, s.check false = .ok c) ↔
      (∀ T ∈ s.names, (s.derivations T).Nonempty) ∧ ∀ T n, { d ∈ s.derivations T | d.size = n }.Finite := by
  rw [check_strict]
  constructor
  · intro hc
    have edge_names {a b : String} (e : (s.zeroSizeGraph s.nullable).Edge a b) : a ∈ s.names ∧ b ∈ s.names := by
      have ⟨t, c, ⟨ht, hn⟩, hc, _, pre, post, he, _⟩ := zeroSizeGraph_edge.mp e
      exact ⟨hn ▸ name_mem_names ht, (resolved h).refs t ht c hc b (by simp [he])⟩
    refine ⟨fun T hT => mem_productive.mp (hc T hT).1, fun T n => finite_of_acyclic (fun a p => ?_) n T⟩
    have ha : a ∈ s.names := have ⟨_, e, _⟩ := Relation.TransGen.head'_iff.mp p; (edge_names e).1
    refine (hc a ha).2 <| mem_zeroSizeCyclic.mpr ⟨⟨ha, (hc a ha).1⟩, p.lift id fun x y e => ⟨e, ?_, ?_⟩⟩
    · exact (hc x (edge_names e).1).1
    · exact (hc y (edge_names e).2).1
  · intro ⟨nonempty, finite⟩ T hT
    refine ⟨mem_productive.mpr (nonempty T hT), fun hc => ?_⟩
    have ⟨n, infinite⟩ := infinite_of_cyclic hc
    exact infinite (finite T n)

-- Words of letters, where every letter is followed by any number of marks.
def wordEntries : List (Except Json Declaration) :=
  let more : Constructor Arg :=
    ⟨"More", [.plain (.atom .unit), .many .sequence (.atom .unit), .plain (.ref "Word")], 1, isWeight_one⟩
  let stop : Constructor Arg := ⟨"Stop", [.plain .epsilon], 1, isWeight_one⟩
  [.ok ⟨"Word", [.ok more, .ok stop], .text "plain", none, 0⟩]

def words : Specification where
  types :=
    let more : Constructor Symbol := ⟨"More", [.atom .unit, .ref "Seq(@)", .ref "Word"], 1, isWeight_one⟩
    let stop : Constructor Symbol := ⟨"Stop", [.epsilon], 1, isWeight_one⟩
    [⟨"Word", [more, stop], .declared none 0⟩, .auxiliary .sequence (.atom .unit)]
  initial := "Word"
  annotations := []

theorem words_wellFounded : (∃ c, words.check false = .ok c) ∧
    (∀ T ∈ words.names, (words.derivations T).Nonempty) ∧ ∀ T n, { d ∈ words.derivations T | d.size = n }.Finite :=
  ⟨⟨_, rfl⟩, (@check_strict_iff_wellFounded words wordEntries [] rfl).mp ⟨_, rfl⟩⟩

end Specification

end BoltzmannSampling
