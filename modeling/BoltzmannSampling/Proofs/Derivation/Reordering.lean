import Mathlib
import BoltzmannSampling.Proofs.Derivation.Productive

/-!
The least fixed points do not depend on the order of the table. A type is found exactly if it belongs to every set that
is closed under the constructors of the class, and being closed is a matter of which type offers which constructor.
-/

namespace BoltzmannSampling

-- The same type with its constructors in another order.
structure TypeDef.Reordered (t t' : TypeDef) : Prop where
  name         : t'.name = t.name
  constructors : t'.constructors.Perm t.constructors

namespace Specification

-- The same types in another order, each of them with its constructors in another order.
def Reordered (s s' : Specification) : Prop :=
  ∃ types, types.Perm s.types ∧ List.Forall₂ TypeDef.Reordered types s'.types

def Offers (s : Specification) (T : String) (c : Constructor Symbol) : Prop :=
  ∃ t ∈ s.types, t.name = T ∧ c ∈ t.constructors

variable {s s' : Specification} {counts : Constructor Symbol → Bool} {found : List String} {T : String}
  {c : Constructor Symbol}

theorem Reordered.offers (h : s.Reordered s') : s'.Offers T c ↔ s.Offers T c := by
  have ⟨types, hp, hr⟩ := h
  constructor
  · intro ⟨t', ht, hn, hc⟩
    have ⟨t, hm, ho⟩ := hr.exists_left ht
    exact ⟨t, hp.mem_iff.mp hm, ho.name ▸ hn, ho.constructors.mem_iff.mp hc⟩
  · intro ⟨t, ht, hn, hc⟩
    have ⟨t', hm, ho⟩ := hr.exists_right (hp.mem_iff.mpr ht)
    exact ⟨t', hm, ho.name ▸ hn, ho.constructors.mem_iff.mpr hc⟩

theorem closed_iff :
    s.Closed counts found ↔ ∀ T c, s.Offers T c → counts c → (∀ r ∈ c.refs, r ∈ found) → T ∈ found := by
  constructor
  · intro h T c ⟨t, ht, hn, hc⟩ hu hr
    exact hn ▸ h (t, c) (mem_productions.mpr ⟨ht, hc⟩) hu hr
  · intro h ⟨t, c⟩ hp hu hr
    have ⟨ht, hc⟩ := mem_productions.mp hp
    exact h t.name c ⟨t, ht, rfl, hc⟩ hu hr

theorem Reordered.closed (h : s.Reordered s') : s'.Closed counts found ↔ s.Closed counts found := by
  simp only [closed_iff, h.offers]

theorem mem_leastFixedPoint_iff_closed :
    T ∈ s.leastFixedPoint counts ↔ ∀ found, s.Closed counts found → T ∈ found := by
  constructor
  case mpr => exact fun h => h _ leastFixedPoint_closed
  case mp  =>
    intro h found hc
    -- A closed set that holds everything found so far holds what is found next.
    have step : ∀ p ∈ s.productions, ∀ before : List String, before ⊆ found → adopt counts before p ⊆ found := by
      intro p hp before hb
      rcases adopt_cases counts before p with ⟨he, -⟩ | ⟨he, -, hu, hr⟩ <;> rw [he]
      · exact hb
      · exact List.append_subset.mpr ⟨hb, by simpa using hc p hp hu fun r hm => hb (hr r hm)⟩
    exact passes_invariant step (List.nil_subset _) h

theorem Reordered.leastFixedPoint (h : s.Reordered s') :
    (s'.leastFixedPoint counts).Perm (s.leastFixedPoint counts) := by
  apply (List.perm_ext_iff_of_nodup leastFixedPoint_nodup leastFixedPoint_nodup).mpr
  intro T
  simp only [mem_leastFixedPoint_iff_closed, h.closed]

-- What the two searches of the checker find, how many passes they take, and that the order of the table has no part
-- in it.
theorem productive_nullable_settled (s : Specification) :
    (∀ T, T ∈ s.productive ↔ (s.derivations T).Nonempty) ∧
    (∀ T, T ∈ s.nullable ↔ ∃ d ∈ s.derivations T, d.size = 0) ∧
    (∃ n ≤ s.types.length + 1, s.Settles (fun _ => true) [] n s.productive) ∧
    (∃ n ≤ s.types.length + 1, s.Settles (fun c => c.size == 0) [] n s.nullable) ∧
    ∀ s', s.Reordered s' → s'.productive.Perm s.productive ∧ s'.nullable.Perm s.nullable := by
  refine ⟨fun T => mem_productive, fun T => mem_nullable, ?_, ?_, fun s' h => ⟨?_, ?_⟩⟩
  · exact leastFixedPoint_settles s _
  · exact leastFixedPoint_settles s _
  · exact h.leastFixedPoint
  · exact h.leastFixedPoint

-- A chain of types, each of which refers to the next one.
def chain : Specification where
  types :=
    let step (name : String) (next : Symbol) : TypeDef :=
      ⟨name, [⟨name ++ "To", [next], 1, isWeight_one⟩], .declared none 0⟩
    [step "A" (.ref "B"), step "B" (.ref "C"), step "C" .epsilon]
  initial := "A"
  annotations := []

theorem chain_reversed_settled :
    let reversed := { chain with types := chain.types.reverse }
    chain.Reordered reversed ∧ reversed.productive.Perm chain.productive ∧ reversed.nullable.Perm chain.nullable := by
  intro reversed
  have same : chain.Reordered reversed :=
    ⟨_, List.reverse_perm _, List.forall₂_same.mpr fun _ _ => ⟨rfl, .refl _⟩⟩
  exact ⟨same, (productive_nullable_settled chain).2.2.2.2 reversed same⟩

-- In this order every pass finds one type, so the bound on the passes is met.
example : chain.Settles (fun _ => true) [] 4 ["C", "B", "A"] :=
  .more (by decide) <| .more (by decide) <| .more (by decide) <| .still (by decide)

end Specification

end BoltzmannSampling
