import Mathlib
import BoltzmannSampling.Proofs.Sampler.Scripts
import BoltzmannSampling.Proofs.Sampler.Steps

/-!
Attempts and derivations. In either order of drawing the decisions with which an attempt comes to an end are those of
the derivations within the limit, one sequence each, and what comes out is the structure of the derivation. The two
orders take the same decisions for a derivation, in another sequence, and so are equally likely to draw it.
-/

namespace BoltzmannSampling

namespace Sampler

-- The decisions with which an attempt has a structure, and none is left.
def completing (s : Sampler) (order : DrawOrder) (limit : Option Nat) (T : String) : Set (List Decision) :=
  { ds | ∃ fuel found a, Attempt.draw .script s order limit fuel ds T = .done found a ∧ a.source = [] }

-- The numbers from a pool with which an attempt takes these decisions and has a structure, and none is left.
def numbers (s : Sampler) (order : DrawOrder) (limit : Option Nat) (T : String) (pool : Finset Float)
    (ds : List Decision) : Set (List Float) :=
  { us | (∀ u ∈ us, u ∈ pool) ∧
    ∃ fuel found a, Attempt.draw .noting s order limit fuel (us, []) T = .done found a ∧ a.source = ([], ds) }

-- The probability that an attempt takes these decisions, with numbers drawn from a pool independently of each other.
noncomputable def chance (s : Sampler) (order : DrawOrder) (limit : Option Nat) (T : String) (pool : Finset Float)
    (ds : List Decision) : ℚ :=
  (s.numbers order limit T pool ds).ncard / pool.card ^ ds.length

variable {tuned : Tuned} {order : DrawOrder} {upper : Nat} {t : TypeDef} {d : Derivation}

theorem isOver_some {n : Nat} : Attempt.isOver (some upper) n = false ↔ n ≤ upper := by
  simp [Attempt.isOver]

theorem mem_completing (resolved : tuned.system.Resolved) (ht : t ∈ tuned.system.userTypes) {ds : List Decision} :
    ds ∈ completing (.ofTuned tuned) order (some upper) t.name ↔
      ∃ d ∈ tuned.system.derivations t.name, d.size ≤ upper ∧ d.script tuned order = ds := by
  constructor
  · rintro ⟨fuel, found, a, hd, hs⟩
    obtain ⟨d, hm, follows, hn, _, _, within⟩ :=
      (Attempt.draw_gives_iff resolved fuel ht).mp ⟨found, a, hd, hs, rfl, rfl⟩
    have he := Decider.script_follows.mp follows
    exact ⟨d, hm, isOver_some.mp (hn ▸ within), by rw [he, List.append_nil, Derivation.script]⟩
  · rintro ⟨d, hm, within, he⟩
    have follows : Decider.script.Follows (d.turns tuned order) ds [] :=
      Decider.script_follows.mpr (by rw [List.append_nil, ← he, Derivation.script])
    obtain ⟨found, a, hd, hs, _⟩ := (Attempt.draw_gives_iff resolved d.steps ht).mpr
      ⟨d, hm, follows, rfl, rfl, Nat.le_succ _, isOver_some.mpr within⟩
    exact ⟨_, found, a, hd, hs⟩

-- Decisions followed by others are those of one derivation only.
theorem script_prefix (resolved : tuned.system.Resolved) (ht : t ∈ tuned.system.userTypes)
    {d' : Derivation} (hd : d ∈ tuned.system.derivations t.name) (hd' : d' ∈ tuned.system.derivations t.name)
    {ds : List Decision} (he : d.script tuned order = d'.script tuned order ++ ds) : d = d' := by
  have hl : d.lengths tuned = d'.lengths tuned := by
    rw [Specification.lengths_declared (Specification.declared_of_user resolved ht hd),
      Specification.lengths_declared (Specification.declared_of_user resolved ht hd')]
  exact ((Specification.separate resolved hd hd').script hl [] ds (by rw [List.append_nil, he])).1

theorem numbers_script (resolved : tuned.system.Resolved) (ht : t ∈ tuned.system.userTypes)
    (hd : d ∈ tuned.system.derivations t.name) (pool : Finset Float) :
    numbers (.ofTuned tuned) order (some upper) t.name pool (d.script tuned order) =
      { us | d.size ≤ upper ∧ (∀ u ∈ us, u ∈ pool) ∧ List.Forall₂ Turn.accepts (d.turns tuned order) us } := by
  ext us
  constructor
  · intro ⟨hp, fuel, found, a, hf, hs⟩
    have ⟨d', hd', follows, hn, _, _, within⟩ :=
      (Attempt.draw_gives_iff resolved fuel ht).mp ⟨found, a, hf, hs, rfl, rfl⟩
    have ⟨vs, hv, ha, he⟩ := Decider.noting_follows.mp follows
    obtain rfl := script_prefix resolved ht hd hd' (he.trans (List.append_nil _).symm)
    rw [List.append_nil] at hv
    exact ⟨isOver_some.mp (hn ▸ within), hp, hv ▸ ha⟩
  · intro ⟨within, hp, ha⟩
    have follows : Decider.noting.Follows (d.turns tuned order) (us, []) ([], d.script tuned order) :=
      Decider.noting_follows.mpr ⟨us, (List.append_nil us).symm, ha, rfl⟩
    have ⟨found, a, hf, hs, _⟩ := (Attempt.draw_gives_iff resolved d.steps ht).mpr
      ⟨d, hd, follows, rfl, rfl, Nat.le_succ _, isOver_some.mpr within⟩
    exact ⟨hp, _, found, a, hf, hs⟩

-- It is the product of the shares that the turns have of the pool.
theorem numbers_ncard (resolved : tuned.system.Resolved) (ht : t ∈ tuned.system.userTypes)
    (hd : d ∈ tuned.system.derivations t.name) (pool : Finset Float) :
    (numbers (.ofTuned tuned) order (some upper) t.name pool (d.script tuned order)).ncard =
      if d.size ≤ upper then ((d.turns tuned order).map (Turn.share pool)).prod else 0 := by
  rw [numbers_script resolved ht hd]
  split
  case isTrue h  => simp only [h, true_and, Turn.ncard_accepts]
  case isFalse h => simp only [h, false_and, Set.ofPred_false, Set.ncard_empty]

theorem chance_script (resolved : tuned.system.Resolved) (ht : t ∈ tuned.system.userTypes)
    (hd : d ∈ tuned.system.derivations t.name) (pool : Finset Float) :
    chance (.ofTuned tuned) .ahead (some upper) t.name pool (d.script tuned .ahead) =
      chance (.ofTuned tuned) .inPlace (some upper) t.name pool (d.script tuned .inPlace) := by
  have perm := Specification.turns_perm resolved hd
  rw [chance, chance, numbers_ncard resolved ht hd, numbers_ncard resolved ht hd,
    (perm.map (Turn.share pool)).prod_eq, Derivation.script, Derivation.script, (perm.map Turn.decision).length_eq]

theorem choice_of_mem_walk (resolved : tuned.system.Resolved) (ht : t ∈ tuned.system.userTypes)
    (hd : d ∈ tuned.system.derivations t.name) {found node : Structure} (he : found.unmarked = d.toStructure)
    (hn : node ∈ found.walk) :
    ∃ u ∈ tuned.system.userTypes, u.name = node.typeName ∧ ∃ c ∈ u.constructors, c.name = node.name := by
  have declared := Specification.declared_of_user resolved ht hd
  have hm : node.unmarked ∈ d.toStructure.walk := he ▸ Structure.unmarked_mem_walk hn
  rw [← Structure.typeName_unmarked, ← Structure.name_unmarked]
  exact Specification.choice_of_mem_walk hd (Derivation.toStructure_mem_children declared) hm

theorem mem_walk_toStructure (resolved : tuned.system.Resolved) (ht : t ∈ tuned.system.userTypes)
    (hd : d ∈ tuned.system.derivations t.name) {found node : Structure} (he : found.unmarked = d.toStructure)
    (hn : node ∈ found.walk) : ∃ u ∈ tuned.system.userTypes, u.name = node.typeName :=
  have ⟨u, hu, name, _⟩ := choice_of_mem_walk resolved ht hd he hn
  ⟨u, hu, name⟩

-- What an attempt draws with the decisions of a derivation is the structure of that derivation.
theorem draw_script (resolved : tuned.system.Resolved) (ht : t ∈ tuned.system.userTypes)
    (hd : d ∈ tuned.system.derivations t.name) {limit : Option Nat} {fuel : Nat} {found : Structure}
    {a : Attempt (List Decision)}
    (h : Attempt.draw .script (.ofTuned tuned) order limit fuel (d.script tuned order) t.name = .done found a) :
    found.unmarked = d.toStructure ∧ a.size = d.size := by
  have ⟨d', hd', follows, hn, hw, _⟩ :=
    (Attempt.draw_gives_iff resolved fuel ht).mp ⟨found, a, h, rfl, rfl, rfl⟩
  obtain rfl := script_prefix resolved ht hd hd' (Decider.script_follows.mp follows)
  exact ⟨hw, hn⟩

-- What is drawn by numbers is a derivation whose turns the numbers take.
theorem numbers_gives_iff (resolved : tuned.system.Resolved) (ht : t ∈ tuned.system.userTypes) {σ : Type}
    {next : σ → Float × σ} {source source' : σ} {limit : Option Nat} {n : Nat} {w : Structure} (fuel : Nat) :
    Attempt.Gives (Attempt.draw (.ofNumbers next) (.ofTuned tuned) order limit fuel source t.name) source' n w ↔
      ∃ d ∈ tuned.system.derivations t.name,
        (∃ us, Decider.Draws next us source source' ∧ List.Forall₂ Turn.accepts (d.turns tuned order) us) ∧
          n = d.size ∧ w = d.toStructure ∧ d.steps ≤ fuel + 1 ∧ Attempt.isOver limit n = false := by
  rw [Attempt.draw_gives_iff resolved fuel ht]
  simp only [Decider.ofNumbers_follows]

theorem exists_derivation_of_draw (resolved : tuned.system.Resolved) (ht : t ∈ tuned.system.userTypes) {σ : Type}
    {next : σ → Float × σ} {source : σ} {limit : Option Nat} {fuel : Nat} {found : Structure} {a : Attempt σ}
    (done : Attempt.draw (.ofNumbers next) (.ofTuned tuned) order limit fuel source t.name = .done found a) :
    ∃ d ∈ tuned.system.derivations t.name, found.unmarked = d.toStructure :=
  have ⟨d, hd, _, _, structure', _⟩ := (numbers_gives_iff resolved ht fuel).mp ⟨found, a, done, rfl, rfl, rfl⟩
  ⟨d, hd, structure'⟩

theorem completing_bijOn {entries : List (Except Json Declaration)} {annotations : List (String × Json)}
    (h : Specification.ofDeclarations entries annotations = .ok tuned.system) (ht : t ∈ tuned.system.userTypes)
    (upper : Nat) :
    (∀ order,
      Set.BijOn (Derivation.script tuned order) { d ∈ tuned.system.derivations t.name | d.size ≤ upper }
        (completing (.ofTuned tuned) order (some upper) t.name) ∧
      ∀ d ∈ tuned.system.derivations t.name, ∀ fuel found a,
        Attempt.draw .script (.ofTuned tuned) order (some upper) fuel (d.script tuned order) t.name = .done found a →
          found.unmarked = d.toStructure ∧ a.size = d.size ∧
            ∀ node ∈ found.walk, ∃ u ∈ tuned.system.userTypes, u.name = node.typeName) ∧
    ∀ d ∈ tuned.system.derivations t.name,
      (d.script tuned .ahead).Perm (d.script tuned .inPlace) ∧
      ∀ pool, chance (.ofTuned tuned) .ahead (some upper) t.name pool (d.script tuned .ahead) =
        chance (.ofTuned tuned) .inPlace (some upper) t.name pool (d.script tuned .inPlace) := by
  have resolved := Specification.resolved h
  refine ⟨fun order => ⟨⟨?_, ?_, ?_⟩, fun d hd fuel found a ha => ?_⟩, fun d hd => ⟨?_, chance_script resolved ht hd⟩⟩
  · intro d ⟨hd, within⟩
    exact (mem_completing resolved ht).mpr ⟨d, hd, within, rfl⟩
  · intro d ⟨hd, _⟩ d' ⟨hd', _⟩ he
    exact script_prefix resolved ht hd hd' (he.trans (List.append_nil _).symm)
  · intro ds hs
    have ⟨d, hd, within, he⟩ := (mem_completing resolved ht).mp hs
    exact ⟨d, ⟨hd, within⟩, he⟩
  · have ⟨hw, hn⟩ := draw_script resolved ht hd ha
    exact ⟨hw, hn, fun _ => mem_walk_toStructure resolved ht hd hw⟩
  · exact (Specification.turns_perm resolved hd).map _

theorem words_bijOn : Specification.ofDeclarations Specification.wordEntries [] = .ok Tuned.words.system ∧
    ∃ t ∈ Tuned.words.system.userTypes, t.name = "Word" ∧
      Set.BijOn (Derivation.script .words .inPlace) { d ∈ Tuned.words.system.derivations t.name | d.size ≤ 3 }
        (completing (.ofTuned .words) .inPlace (some 3) t.name) :=
  ⟨rfl, _, List.mem_cons_self, rfl,
    ((@completing_bijOn .words _ Specification.wordEntries [] rfl List.mem_cons_self 3).1 .inPlace).1⟩

end Sampler

end BoltzmannSampling
