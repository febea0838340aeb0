import Mathlib
import BoltzmannSampling.Proofs.Derivation.WellFounded
import BoltzmannSampling.Proofs.Sampler.Decisions
import BoltzmannSampling.Proofs.Specification.Resolved
import BoltzmannSampling.Proofs.Tuning.Rows

/-!
The tables of a sampler. Every type of a tuned system has a dispatch of its own, and every constructor a plan whose
arguments stand for its references in order; at most one of them is a continuation.
-/

namespace BoltzmannSampling

namespace Slot

def continues : Slot → Bool
  | child _ c => c
  | run _ _   => false

end Slot

namespace Sampler

theorem any_continues_of_lastContinuation {slots : List Slot} (h : ∃ x ∈ lastContinuation slots, x.continues) :
    ∃ x ∈ slots, x.continues := by
  induction slots
  case nil => simp [lastContinuation] at h
  case cons s rest hi =>
    obtain ⟨x, hx, hc⟩ := h
    cases s
    all_goals
      simp only [lastContinuation, List.mem_cons] at hx
      cases hx
    case child.inl t c he =>
      have : c = true := by simp_all [Slot.continues]
      exact ⟨_, List.mem_cons_self, this⟩
    case run.inl he => simp [he, Slot.continues] at hc
    case child.inr hx | run.inr hx =>
      obtain ⟨y, hy, hc⟩ := hi ⟨x, hx, hc⟩
      exact ⟨y, List.mem_cons_of_mem _ hy, hc⟩

theorem lastContinuation_single (slots : List Slot) :
    (lastContinuation slots).Pairwise fun a b => a.continues → b.continues = false := by
  induction slots
  case nil => exact .nil
  case cons s rest hi =>
    cases s
    case child t c =>
      refine .cons (fun y hy hs => ?_) hi
      by_contra hc
      have ⟨x, hx, hc⟩ := any_continues_of_lastContinuation ⟨y, hy, by simpa using hc⟩
      simp only [Slot.continues, Bool.and_eq_true, Bool.not_eq_true', List.any_eq_false] at hs
      have := hs.2 x hx
      cases x <;> simp_all [Slot.continues]
    case run => exact .cons (by simp [Slot.continues]) hi

end Sampler

namespace TypeDef

-- The place of a constructor among those of its type.
def place (t : TypeDef) (c : Constructor Symbol) : Nat :=
  (t.constructors.map Constructor.name).idxOf c.name

end TypeDef

namespace Tuned

variable {tuned : Tuned} {t : TypeDef} {c : Constructor Symbol}

-- The probability of one more element of a sequence or set.
def continuing (tuned : Tuned) (name : String) : Float :=
  ((tuned.probabilitiesOf? name).getD []).getD 1 0

def plan (tuned : Tuned) (t : TypeDef) (c : Constructor Symbol) : Plan :=
  Sampler.planOf tuned (Assoc.get? tuned.system.components) t c

def dispatch (tuned : Tuned) (t : TypeDef) : Dispatch :=
  ⟨t.name, thresholds ((tuned.probabilitiesOf? t.name).getD []), t.constructors.map (tuned.plan t)⟩

-- The turn in which a constructor is chosen, unless it is the only one of its type.
def pick (tuned : Tuned) (t : TypeDef) (c : Constructor Symbol) : List Turn :=
  if (tuned.dispatch t).needsDraw then [.choose (tuned.dispatch t) (t.place c)] else []

-- What an argument of a plan stands for: a declared type, or the auxiliary type of a modifier.
def StandsFor (tuned : Tuned) (reference : String) : Slot → Prop
  | .child T _ => T = reference ∧ ∃ u ∈ tuned.system.userTypes, u.name = reference
  | .run p e   => p = tuned.continuing reference ∧
      ∃ m, reference = TypeDef.auxiliaryName m e ∧ .auxiliary m e ∈ tuned.system.types

theorem find?_rows (resolved : tuned.system.Resolved) (ht : t ∈ tuned.system.types) :
    ∃ ps, tuned.rows.find? (·.1.name == t.name) = some (t, ps) := by
  have ⟨row, hr, he⟩ := List.mem_map.mp (tuned.rows_types.symm ▸ ht)
  have ⟨found, hf⟩ := Option.isSome_iff_exists.mp <|
    List.find?_isSome (p := fun row : TypeDef × List Float => row.1.name == t.name) |>.mpr ⟨row, hr, by simp [he]⟩
  have hm : found.1 ∈ tuned.system.types := tuned.rows_types ▸ List.mem_map_of_mem (List.mem_of_find?_eq_some hf)
  have hn : found.1.name = t.name := by simpa using List.find?_some hf
  exact ⟨found.2, by rw [hf, ← resolved.type_unique hm ht hn]⟩

theorem dispatch?_eq (resolved : tuned.system.Resolved) (ht : t ∈ tuned.system.types) :
    (Sampler.ofTuned tuned).dispatch? t.name = some (tuned.dispatch t) := by
  have ⟨ps, hf⟩ := tuned.find?_rows resolved ht
  simp only [Sampler.dispatch?, Sampler.ofTuned, List.find?_map, Function.comp_def, hf, Option.map_some]
  simp only [dispatch, probabilitiesOf?, hf, Option.map_some, Option.getD_some]
  rfl

theorem plan_single (tuned : Tuned) (t : TypeDef) (c : Constructor Symbol) :
    (tuned.plan t c).slots.Pairwise fun a b => a.continues → b.continues = false :=
  Sampler.lastContinuation_single _

theorem standsFor_slotOf (resolved : tuned.system.Resolved) {component : String → Option String} {r : String}
    (hr : r ∈ tuned.system.names) : tuned.StandsFor r (Sampler.slotOf tuned component t r) := by
  obtain ⟨u, hu, rfl⟩ := Specification.mem_names.mp hr
  rw [Sampler.slotOf, resolved.type?_eq hu]
  obtain ⟨name, cs, origin⟩ := u
  cases origin
  case declared => exact ⟨rfl, _, List.mem_filter.mpr ⟨hu, rfl⟩, rfl⟩
  case auxiliary m e =>
    have he := resolved.auxiliary _ hu m e rfl
    exact ⟨rfl, m, congrArg TypeDef.name he, he ▸ hu⟩

theorem standsFor_lastContinuation {refs : List String} {slots : List Slot}
    (h : List.Forall₂ tuned.StandsFor refs slots) :
    List.Forall₂ tuned.StandsFor refs (Sampler.lastContinuation slots) := by
  induction h
  case nil => exact .nil
  case cons r s _ _ hs _ hi =>
    cases s
    case child => exact .cons hs hi
    case run   => exact .cons hs hi

theorem plan_slots (resolved : tuned.system.Resolved) (ht : t ∈ tuned.system.types) (hc : c ∈ t.constructors) :
    List.Forall₂ tuned.StandsFor c.refs (tuned.plan t c).slots := by
  refine standsFor_lastContinuation <| List.forall₂_map_right_iff.mpr <| List.forall₂_same.mpr fun r hr => ?_
  exact tuned.standsFor_slotOf resolved (resolved.refs t ht c hc r hr)

theorem names_nodup (resolved : tuned.system.Resolved) (ht : t ∈ tuned.system.types) :
    (t.constructors.map Constructor.name).Nodup := by
  have h := resolved.constructors
  rw [Specification.constructorNames, Specification.productions, List.map_flatMap] at h
  have := (List.nodup_flatMap.mp h).1 t ht
  rwa [List.map_map] at this

theorem getElem?_place (resolved : tuned.system.Resolved) (ht : t ∈ tuned.system.types) {i : Nat} :
    t.constructors[i]? = some c ↔ c ∈ t.constructors ∧ i = t.place c := by
  constructor
  · intro h
    have ⟨hi, hc⟩ := List.getElem?_eq_some_iff.mp h
    have hl : i < (t.constructors.map Constructor.name).length := by simpa using hi
    have hn : (t.constructors.map Constructor.name)[i] = c.name := by simp [hc]
    exact ⟨hc ▸ List.getElem_mem hi, by rw [TypeDef.place, ← hn, (names_nodup resolved ht).idxOf_getElem]⟩
  · rintro ⟨hc, rfl⟩
    have hi : t.place c < (t.constructors.map Constructor.name).length :=
      List.idxOf_lt_length_of_mem <| List.mem_map_of_mem hc
    have hl : t.place c < t.constructors.length := by simpa using hi
    have hn : (t.constructors[t.place c]).name = c.name := by
      rw [← List.getElem_map Constructor.name (h := hi)]
      exact List.getElem_idxOf hi
    have := (resolved.constructor_unique ht (List.getElem_mem hl) ht hc hn).2
    rw [List.getElem?_eq_getElem hl, this]

-- Choosing a plan is choosing a constructor.
theorem plan_eq_some {σ : Type} {D : Decider σ} {source source' : σ} {p : Plan} (resolved : tuned.system.Resolved)
    (ht : t ∈ tuned.system.types) : D.plan (tuned.dispatch t) source = (some p, source') ↔
      ∃ c ∈ t.constructors, p = tuned.plan t c ∧ D.Follows (tuned.pick t c) source source' := by
  by_cases hd : (tuned.dispatch t).needsDraw
  case pos =>
    have hp {c : Constructor Symbol} : D.Follows (tuned.pick t c) source source' ↔
        D.choose (tuned.dispatch t) source = some (t.place c, source') := by
      simp [pick, hd, Decider.follows_cons, Decider.follows_nil, Decider.Takes]
    simp only [Decider.plan, if_pos hd, hp]
    cases D.choose (tuned.dispatch t) source
    case none => simp
    case some found =>
      obtain ⟨i, next⟩ := found
      have hi : (tuned.dispatch t).plans[i]? = some p ↔ ∃ c, t.constructors[i]? = some c ∧ tuned.plan t c = p := by
        simp [dispatch]
      simp only [Prod.mk.injEq, hi, getElem?_place resolved ht, Option.some.injEq]
      constructor
      · rintro ⟨⟨c, ⟨hc, rfl⟩, rfl⟩, rfl⟩
        exact ⟨c, hc, rfl, rfl, rfl⟩
      · rintro ⟨c, hc, rfl, rfl, rfl⟩
        exact ⟨⟨c, ⟨hc, rfl⟩, rfl⟩, rfl⟩
  case neg =>
    have hl : t.constructors.length = 1 := by simpa [Dispatch.needsDraw, dispatch] using hd
    obtain ⟨c, hc⟩ := List.length_eq_one_iff.mp hl
    have hh : (tuned.dispatch t).plans.head? = some (tuned.plan t c) := by simp [dispatch, hc]
    have hp : D.Follows (tuned.pick t c) source source' ↔ source = source' := by
      rw [pick, if_neg hd, Decider.follows_nil]
    simp only [Decider.plan, if_neg hd, hh, hc, List.mem_singleton, exists_eq_left, hp, Prod.mk.injEq,
      Option.some.injEq, eq_comm (a := p)]

-- A rational system and its tables.
def words : Tuned where
  system         := .words
  classification := .rational
  mode           := .cumulative
  singularity    := 0.5
  parameter      := 0.25
  values         := [("Word", 1.5), ("Seq(@)", 4 / 3)]
  probabilities  := [[1 / 3, 2 / 3], [0.75, 0.25]]
  aligned        := rfl

end Tuned

end BoltzmannSampling
