import Mathlib
import BoltzmannSampling.Digraph

/-!
Reachability and cycles of a graph, computed and declared: what `reachable` lists are the ends of paths, and what
`cyclic` lists are the nodes on closed paths.
-/

namespace BoltzmannSampling

namespace Digraph

variable {ν : Type} [BEq ν] [LawfulBEq ν] {g : Digraph ν} {a b : ν} {seen start : List ν}

def Edge (g : Digraph ν) (a b : ν) : Prop := (a, b) ∈ g.edges

theorem mem_successors : b ∈ g.successors a ↔ g.Edge a b := by
  simp only [successors, List.mem_map, List.mem_filter, beq_iff_eq, Edge]
  constructor
  · rintro ⟨⟨x, y⟩, ⟨h, rfl⟩, rfl⟩
    exact h
  · intro h
    exact ⟨(a, b), ⟨h, rfl⟩, rfl⟩

-- The nodes that one more round adds.
def fresh (g : Digraph ν) (seen : List ν) : List ν :=
  ((seen.flatMap g.successors).filter (!seen.contains ·)).eraseDups

theorem mem_fresh : b ∈ g.fresh seen ↔ (∃ a ∈ seen, g.Edge a b) ∧ b ∉ seen := by
  simp [fresh, mem_successors]

omit [LawfulBEq ν] in
theorem closure_succ (rounds : Nat) :
    g.closure (rounds + 1) seen = if (g.fresh seen).isEmpty then seen else g.closure rounds (seen ++ g.fresh seen) :=
  rfl

omit [LawfulBEq ν] in
theorem subset_closure {rounds : Nat} (h : a ∈ seen) : a ∈ g.closure rounds seen := by
  induction rounds generalizing seen
  case zero => exact h
  case succ hi =>
    rw [closure_succ]
    split
    · exact h
    · exact hi <| List.mem_append_left _ h

theorem closure_sound {rounds : Nat} (h : b ∈ g.closure rounds seen) :
    ∃ a ∈ seen, Relation.ReflTransGen g.Edge a b := by
  induction rounds generalizing seen
  case zero => exact ⟨b, h, .refl⟩
  case succ hi =>
    rw [closure_succ] at h
    split at h
    · exact ⟨b, h, .refl⟩
    · obtain ⟨x, hx, p⟩ := hi h
      rcases List.mem_append.mp hx with hx | hx
      · exact ⟨x, hx, p⟩
      · obtain ⟨⟨a, ha, e⟩, -⟩ := mem_fresh.mp hx
        exact ⟨a, ha, .head e p⟩

-- The edges whose ends have not been seen. A round that adds a node uses up one of them at least, and this bounds
-- the number of rounds by the number of edges.
def unseen (g : Digraph ν) (seen : List ν) : List (ν × ν) :=
  g.edges.filter fun e => !seen.contains e.2

theorem length_unseen_lt (h : b ∈ g.fresh seen) :
    (g.unseen (seen ++ g.fresh seen)).length < (g.unseen seen).length := by
  obtain ⟨⟨a, -, e⟩, hb⟩ := mem_fresh.mp h
  have hs : g.unseen (seen ++ g.fresh seen) =
      (g.unseen seen).filter fun e => !(seen ++ g.fresh seen).contains e.2 := by
    simp only [unseen, List.filter_filter]
    refine List.filter_congr fun e _ => ?_
    by_cases he : e.2 ∈ seen <;> simp [he]
  rw [hs, List.length_filter_lt_length_iff_exists]
  refine ⟨(a, b), List.mem_filter.mpr ⟨e, by simpa using hb⟩, ?_⟩
  simp [h]

theorem closure_closed {rounds : Nat} (hr : (g.unseen seen).length ≤ rounds) (ha : a ∈ g.closure rounds seen)
    (e : g.Edge a b) : b ∈ g.closure rounds seen := by
  induction rounds generalizing seen
  case zero =>
    by_contra hb
    rw [closure] at hb
    have : (a, b) ∈ g.unseen seen := List.mem_filter.mpr ⟨e, by simpa using hb⟩
    simp [List.length_eq_zero_iff.mp (Nat.le_zero.mp hr)] at this
  case succ rounds hi =>
    rw [closure_succ] at ha ⊢
    split at ha
    case isTrue he =>
      by_contra hb
      have : b ∈ g.fresh seen := mem_fresh.mpr ⟨⟨a, ha, e⟩, by simpa [he] using hb⟩
      simp [List.isEmpty_iff.mp he] at this
    case isFalse he =>
      obtain ⟨x, hx⟩ := List.exists_mem_of_ne_nil _ <| mt List.isEmpty_iff.mpr he
      have := g.length_unseen_lt hx
      rw [if_neg he]
      exact hi (by omega) ha

theorem mem_reachable : b ∈ g.reachable start ↔ ∃ a ∈ start, Relation.ReflTransGen g.Edge a b := by
  constructor
  · exact closure_sound
  · rintro ⟨a, ha, p⟩
    induction p
    case refl        => exact subset_closure ha
    case tail _ e hi => exact closure_closed (List.length_filter_le ..) hi e

theorem mem_cyclic : a ∈ g.cyclic ↔ a ∈ g.nodes ∧ Relation.TransGen g.Edge a a := by
  simp [cyclic, mem_reachable, mem_successors, Relation.TransGen.head'_iff]

omit [BEq ν] [LawfulBEq ν] in
theorem restrict_edge {keep : ν → Bool} : (g.restrict keep).Edge a b ↔ g.Edge a b ∧ keep a ∧ keep b := by
  simp [restrict, Edge]

end Digraph

end BoltzmannSampling
