import Mathlib
import BoltzmannSampling.Sampler.Machine

/-!
Decisions as data. A script offers them one after the other. A turn is a decision with what it decides on, so that a
source can be asked whether it takes it; numbers take a turn if they fall where the turn lies.
-/

namespace BoltzmannSampling

inductive Decision where
  | choose (index : Nat)
  | again (goesOn : Bool)
deriving DecidableEq

inductive Turn where
  | choose (d : Dispatch) (index : Nat)
  | again (p : Float) (e : Element) (goesOn : Bool)

namespace Turn

def decision : Turn → Decision
  | choose _ i    => .choose i
  | again _ _ b => .again b

-- The numbers that take a turn.
def accepts : Turn → Float → Prop
  | choose d i, u => d.index u = i
  | again p _ b, u => decide (u < p) = b

instance (t : Turn) (u : Float) : Decidable (t.accepts u) :=
  match t with
  | choose d i  => inferInstanceAs (Decidable (d.index u = i))
  | again p _ b => inferInstanceAs (Decidable (decide (u < p) = b))

end Turn

namespace Decider

variable {σ : Type} {D : Decider σ} {source middle source' : σ} {ts ts₁ ts₂ : List Turn}

-- Decisions written down beforehand.
def script : Decider (List Decision) where
  choose _ ds :=
    match ds with
    | .choose i :: rest => some (i, rest)
    | _ => none
  goesOn _ _ ds :=
    match ds with
    | .again b :: rest => some (b, rest)
    | _ => none

-- One turn of a source.
def Takes (D : Decider σ) : Turn → σ → σ → Prop
  | .choose d i, source, source' => D.choose d source = some (i, source')
  | .again p e b, source, source' => D.goesOn p e source = some (b, source')

inductive Follows (D : Decider σ) : List Turn → σ → σ → Prop
  | nil {source : σ} : Follows D [] source source
  | cons {t : Turn} {ts : List Turn} {source middle source' : σ} (first : D.Takes t source middle)
      (rest : Follows D ts middle source') :
      Follows D (t :: ts) source source'

theorem follows_nil : D.Follows [] source source' ↔ source = source' := by
  constructor
  · intro h
    cases h
    rfl
  · intro h
    exact h ▸ .nil

theorem follows_cons {t : Turn} :
    D.Follows (t :: ts) source source' ↔ ∃ middle, D.Takes t source middle ∧ D.Follows ts middle source' := by
  constructor
  · intro h
    cases h
    case cons first rest => exact ⟨_, first, rest⟩
  · intro ⟨_, first, rest⟩
    exact .cons first rest

theorem follows_append :
    D.Follows (ts₁ ++ ts₂) source source' ↔ ∃ middle, D.Follows ts₁ source middle ∧ D.Follows ts₂ middle source' := by
  induction ts₁ generalizing source
  case nil => simp [follows_nil]
  case cons t ts hi =>
    simp only [List.cons_append, follows_cons, hi]
    constructor
    · intro ⟨next, ht, middle, h₁, h₂⟩
      exact ⟨middle, ⟨next, ht, h₁⟩, h₂⟩
    · intro ⟨middle, ⟨next, ht, h₁⟩, h₂⟩
      exact ⟨next, ht, middle, h₁, h₂⟩

theorem script_takes {t : Turn} {ds ds' : List Decision} : script.Takes t ds ds' ↔ ds = t.decision :: ds' := by
  cases t
  all_goals
    simp only [Takes, script, Turn.decision]
    cases ds
    case nil => simp
    case cons d ds => cases d <;> simp

theorem script_follows {ds ds' : List Decision} : script.Follows ts ds ds' ↔ ds = ts.map Turn.decision ++ ds' := by
  induction ts generalizing ds
  case nil          => simp [follows_nil]
  case cons t ts hi => simp [follows_cons, script_takes, hi]

-- So many numbers of a source, one after the other.
inductive Draws (next : σ → Float × σ) : List Float → σ → σ → Prop
  | nil {source : σ} : Draws next [] source source
  | cons {us : List Float} {source source' : σ} (rest : Draws next us (next source).2 source') :
      Draws next ((next source).1 :: us) source source'

theorem ofNumbers_takes {next : σ → Float × σ} {t : Turn} :
    (ofNumbers next).Takes t source source' ↔ t.accepts (next source).1 ∧ source' = (next source).2 := by
  cases t <;> simp [Takes, ofNumbers, Turn.accepts, eq_comm]

theorem ofNumbers_follows {next : σ → Float × σ} :
    (ofNumbers next).Follows ts source source' ↔
      ∃ us, Draws next us source source' ∧ List.Forall₂ Turn.accepts ts us := by
  induction ts generalizing source
  case nil =>
    rw [follows_nil]
    constructor
    · rintro rfl
      exact ⟨[], .nil, .nil⟩
    · intro ⟨us, hd, ha⟩
      cases ha
      cases hd
      rfl
  case cons t ts hi =>
    simp only [follows_cons, ofNumbers_takes, hi]
    constructor
    · rintro ⟨_, ⟨ht, rfl⟩, us, hd, ha⟩
      exact ⟨_ :: us, .cons hd, .cons ht ha⟩
    · intro ⟨us, hd, ha⟩
      cases ha
      case cons ht ha =>
        cases hd
        case cons hd => exact ⟨_, ⟨ht, rfl⟩, _, hd, ha⟩

-- Decisions by an endless stream of numbers; the source is how many have been taken.
def ofStream (us : Nat → Float) : Decider Nat := ofNumbers fun i => (us i, i + 1)

-- Decisions by the numbers of a list, which are written down.
def noting : Decider (List Float × List Decision) where
  choose d source :=
    match source with
    | (u :: us, ds) => some (d.index u, us, ds ++ [.choose (d.index u)])
    | ([], _) => none
  goesOn p _ source :=
    match source with
    | (u :: us, ds) => some (u < p, us, ds ++ [.again (u < p)])
    | ([], _) => none

variable {us us' : List Float} {ds ds' : List Decision}

theorem noting_takes {t : Turn} : noting.Takes t (us, ds) (us', ds') ↔
    ∃ u, us = u :: us' ∧ t.accepts u ∧ ds' = ds ++ [t.decision] := by
  cases us
  case nil => cases t <;> simp [Takes, noting]
  case cons u us =>
    cases t
    all_goals
      simp only [Takes, noting, Option.some.injEq, Prod.mk.injEq, List.cons.injEq, Turn.accepts, Turn.decision]
      constructor
      · rintro ⟨rfl, rfl, rfl⟩
        exact ⟨u, ⟨rfl, rfl⟩, rfl, rfl⟩
      · rintro ⟨_, ⟨rfl, rfl⟩, rfl, rfl⟩
        exact ⟨rfl, rfl, rfl⟩

theorem noting_follows : noting.Follows ts (us, ds) (us', ds') ↔
    ∃ vs, us = vs ++ us' ∧ List.Forall₂ Turn.accepts ts vs ∧ ds' = ds ++ ts.map Turn.decision := by
  induction ts generalizing us ds
  case nil =>
    rw [follows_nil]
    constructor
    · rintro ⟨rfl, rfl⟩
      exact ⟨[], rfl, .nil, (List.append_nil _).symm⟩
    · rintro ⟨vs, rfl, ha, rfl⟩
      cases ha
      simp
  case cons t ts hi =>
    simp only [follows_cons, Prod.exists, noting_takes, hi]
    constructor
    · rintro ⟨_, _, ⟨u, rfl, ht, rfl⟩, vs, rfl, ha, rfl⟩
      exact ⟨u :: vs, rfl, .cons ht ha, by simp⟩
    · rintro ⟨vs, rfl, ha, rfl⟩
      cases ha
      case cons u vs ht ha => exact ⟨_, _, ⟨u, rfl, ht, rfl⟩, vs, rfl, ha, by simp⟩

end Decider

namespace Turn

-- How many numbers of a pool take a turn.
noncomputable def share (pool : Finset Float) (t : Turn) : Nat :=
  { u | u ∈ pool ∧ t.accepts u }.ncard

theorem ncard_accepts (pool : Finset Float) (ts : List Turn) :
    { us : List Float | (∀ u ∈ us, u ∈ pool) ∧ List.Forall₂ accepts ts us }.ncard = (ts.map (share pool)).prod := by
  induction ts
  case nil =>
    have : { us : List Float | (∀ u ∈ us, u ∈ pool) ∧ List.Forall₂ accepts [] us } = {[]} := by
      ext us
      constructor
      · intro ⟨_, ha⟩
        cases ha
        rfl
      · rintro rfl
        exact ⟨by simp, .nil⟩
    rw [this, Set.ncard_singleton, List.map_nil, List.prod_nil]
  case cons t ts hi =>
    have hs : { us : List Float | (∀ u ∈ us, u ∈ pool) ∧ List.Forall₂ accepts (t :: ts) us } =
        (fun x : Float × List Float => x.1 :: x.2) ''
          ({ u | u ∈ pool ∧ t.accepts u } ×ˢ { us | (∀ u ∈ us, u ∈ pool) ∧ List.Forall₂ accepts ts us }) := by
      ext us
      constructor
      · intro ⟨hp, ha⟩
        cases ha
        case cons u us ha has =>
          have ⟨hu, hus⟩ := List.forall_mem_cons.mp hp
          exact ⟨(u, us), ⟨⟨hu, ha⟩, hus, has⟩, rfl⟩
      · rintro ⟨⟨u, us⟩, ⟨⟨hu, ha⟩, hus, has⟩, rfl⟩
        exact ⟨List.forall_mem_cons.mpr ⟨hu, hus⟩, .cons ha has⟩
    have injective : Function.Injective fun x : Float × List Float => x.1 :: x.2 := fun x y h =>
      Prod.ext (List.cons.inj h).1 (List.cons.inj h).2
    rw [hs, Set.ncard_image_of_injective _ injective, Set.ncard_prod, hi, List.map_cons, List.prod_cons, share]

end Turn

end BoltzmannSampling
