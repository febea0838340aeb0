import Mathlib

/-!
Waiting for something that numbers bring about, drawn independently of each other from a pool. If it can be brought
about from everywhere by some so many numbers, the share of the number sequences that do not bring it about falls
geometrically in their length.
-/

namespace BoltzmannSampling

-- The sequences of so many numbers from a pool.
def sequences (pool : Finset Float) (n : Nat) : Set (List Float) :=
  { us | us.length = n ∧ ∀ u ∈ us, u ∈ pool }

variable {pool : Finset Float} {K n : Nat} {us : List Float}

theorem sequences_zero (pool : Finset Float) : sequences pool 0 = {[]} := by
  ext us
  simp +contextual [sequences, List.length_eq_zero_iff]

theorem sequences_succ (pool : Finset Float) (n : Nat) :
    sequences pool (n + 1) =
      (fun x : Float × List Float => x.1 :: x.2) '' ((pool : Set Float) ×ˢ sequences pool n) := by
  ext us
  constructor
  · intro ⟨hl, hp⟩
    cases us
    case nil => cases hl
    case cons u us =>
      have ⟨hu, hus⟩ := List.forall_mem_cons.mp hp
      exact ⟨(u, us), ⟨hu, Nat.succ.inj hl, hus⟩, rfl⟩
  · intro ⟨⟨u, us⟩, ⟨hu, hl, hus⟩, he⟩
    exact he ▸ ⟨congrArg Nat.succ hl, List.forall_mem_cons.mpr ⟨hu, hus⟩⟩

theorem finite_sequences (pool : Finset Float) (n : Nat) : (sequences pool n).Finite := by
  induction n
  case zero      => exact sequences_zero pool ▸ Set.finite_singleton []
  case succ n hi => exact sequences_succ pool n ▸ (pool.finite_toSet.prod hi).image _

theorem ncard_sequences (pool : Finset Float) (n : Nat) : (sequences pool n).ncard = pool.card ^ n := by
  induction n
  case zero      => rw [sequences_zero, Set.ncard_singleton, pow_zero]
  case succ n hi =>
    have injective : Function.Injective fun x : Float × List Float => x.1 :: x.2 := fun x y h =>
      Prod.ext (List.cons.inj h).1 (List.cons.inj h).2
    rw [sequences_succ, Set.ncard_image_of_injective _ injective, Set.ncard_prod, hi, Set.ncard_coe_finset, pow_succ']

-- Goals, each given by the numbers that bring it about. From every goal, some of the next numbers bring it about, and
-- whichever the next one is, another goal is left.
structure Recurrent (pool : Finset Float) (K : Nat) (goals : Set (Set (List Float))) : Prop where
  extend : ∀ Q ∈ goals, ∀ us ∈ Q, ∀ vs, us ++ vs ∈ Q
  reach  : ∀ Q ∈ goals, ∃ us ∈ sequences pool K, us ∈ Q
  next   : ∀ Q ∈ goals, ∀ u ∈ pool, ∃ Q' ∈ goals, ∀ vs ∈ Q', u :: vs ∈ Q

namespace Recurrent

variable {goals : Set (Set (List Float))} {Q : Set (List Float)}

theorem after (h : Recurrent pool K goals) (hQ : Q ∈ goals) (hu : ∀ u ∈ us, u ∈ pool) :
    ∃ Q' ∈ goals, ∀ vs ∈ Q', us ++ vs ∈ Q := by
  induction us generalizing Q
  case nil => exact ⟨Q, hQ, fun _ hv => hv⟩
  case cons u us hi =>
    have ⟨hu, hus⟩ := List.forall_mem_cons.mp hu
    have ⟨Q₁, hQ₁, first⟩ := h.next Q hQ u hu
    have ⟨Q₂, hQ₂, others⟩ := hi hQ₁ hus
    exact ⟨Q₂, hQ₂, fun vs hv => first _ (others vs hv)⟩

-- Of the sequences of `K` numbers one at least brings the goal about.
theorem ncard_missing_le (h : Recurrent pool K goals) (hQ : Q ∈ goals) :
    (sequences pool K \ Q).ncard ≤ pool.card ^ K - 1 := by
  have ⟨us, hs, hu⟩ := h.reach Q hQ
  have fewer : (sequences pool K \ Q).ncard < (sequences pool K).ncard :=
    Set.ncard_lt_ncard ⟨Set.sdiff_subset, fun all => (all hs).2 hu⟩ (finite_sequences pool K)
  rw [ncard_sequences] at fewer
  exact Nat.le_sub_one_of_lt fewer

-- By blocks of `K` numbers: the first does not bring the goal about, nor do the others what it leaves.
theorem ncard_le (h : Recurrent pool K goals) (hQ : Q ∈ goals) (n : Nat) :
    (sequences pool (n * K) \ Q).ncard ≤ (pool.card ^ K - 1) ^ n := by
  induction n generalizing Q
  case zero =>
    rw [Nat.zero_mul, sequences_zero, pow_zero, ← Set.ncard_singleton ([] : List Float)]
    exact Set.ncard_le_ncard Set.sdiff_subset
  case succ n hi =>
    classical
    choose! left goal rest using fun us (hu : ∀ u ∈ us, u ∈ pool) => h.after hQ hu
    have blocks : (sequences pool K \ Q).Finite := (finite_sequences pool K).sdiff
    have later (us : List Float) : ((us ++ ·) '' (sequences pool (n * K) \ left us)).Finite :=
      (finite_sequences pool (n * K)).sdiff.image _
    have covered : sequences pool ((n + 1) * K) \ Q ⊆ blocks.toFinset.biUnion fun us => (later us).toFinset := by
      intro ws ⟨⟨hl, hw⟩, hm⟩
      have hl : ws.length = K + n * K := by rw [hl, Nat.succ_mul, Nat.add_comm]
      have hf : ∀ u ∈ ws.take K, u ∈ pool := fun u hu => hw u (List.mem_of_mem_take hu)
      have first : ws.take K ∈ sequences pool K := ⟨by rw [List.length_take]; omega, hf⟩
      have others : ws.drop K ∈ sequences pool (n * K) :=
        ⟨by rw [List.length_drop]; omega, fun u hu => hw u (List.mem_of_mem_drop hu)⟩
      rw [← List.take_append_drop K ws] at hm
      simp only [Finset.coe_biUnion, Set.Finite.coe_toFinset, Set.mem_iUnion]
      refine ⟨ws.take K, ⟨first, fun hq => hm (h.extend Q hQ _ hq _)⟩, ws.drop K, ⟨others, fun hq => hm ?_⟩, ?_⟩
      · exact rest _ hf _ hq
      · exact List.take_append_drop K ws
    calc (sequences pool ((n + 1) * K) \ Q).ncard
      _ ≤ (blocks.toFinset.biUnion fun us => (later us).toFinset).card := by
        rw [← Set.ncard_coe_finset]
        exact Set.ncard_le_ncard covered (Finset.finite_toSet _)
      _ ≤ blocks.toFinset.card * (pool.card ^ K - 1) ^ n := by
        refine Finset.card_biUnion_le_card_mul _ _ _ fun us hu => ?_
        have hu : us ∈ sequences pool K \ Q := blocks.mem_toFinset.mp hu
        rw [← Set.ncard_eq_toFinset_card _ (later us)]
        exact (Set.ncard_image_le (finite_sequences pool (n * K)).sdiff).trans (hi (goal us hu.1.2))
      _ ≤ (pool.card ^ K - 1) * (pool.card ^ K - 1) ^ n := by
        rw [← Set.ncard_eq_toFinset_card _ blocks]
        exact Nat.mul_le_mul_right _ (h.ncard_missing_le hQ)
      _ = (pool.card ^ K - 1) ^ (n + 1) := (pow_succ' _ _).symm

end Recurrent

end BoltzmannSampling
