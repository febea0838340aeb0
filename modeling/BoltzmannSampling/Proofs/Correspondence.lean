import Mathlib

/-!
Lists that correspond element by element, as the references of a constructor and the derivations for them do.
-/

namespace List.Forall₂

variable {α β : Type} {R : α → β → Prop} {xs : List α} {ys : List β}

theorem exists_right (h : Forall₂ R xs ys) {x : α} (hx : x ∈ xs) : ∃ y ∈ ys, R x y := by
  induction h
  case nil => simp at hx
  case cons r _ hi =>
    cases hx
    case head => exact ⟨_, mem_cons_self, r⟩
    case tail hx =>
      have ⟨y, hy, r⟩ := hi hx
      exact ⟨y, mem_cons_of_mem _ hy, r⟩

theorem exists_left (h : Forall₂ R xs ys) {y : β} (hy : y ∈ ys) : ∃ x ∈ xs, R x y :=
  h.flip.exists_right hy

theorem of_exists (h : ∀ x ∈ xs, ∃ y, R x y) : ∃ ys, Forall₂ R xs ys := by
  induction xs
  case nil => exact ⟨[], .nil⟩
  case cons x xs hi =>
    have ⟨y, hy⟩ := h x mem_cons_self
    have ⟨ys, hs⟩ := hi fun z hz => h z <| mem_cons_of_mem _ hz
    exact ⟨y :: ys, .cons hy hs⟩

theorem compose {γ : Type} {S : α → γ → Prop} {zs : List γ} (h : Forall₂ R xs ys) (h' : Forall₂ S xs zs) :
    Forall₂ (fun y z => ∃ x, R x y ∧ S x z) ys zs := by
  induction h generalizing zs
  case nil =>
    cases h'
    exact .nil
  case cons r _ hi =>
    cases h'
    case cons s hs => exact .cons ⟨_, r, s⟩ (hi hs)

theorem append_left {xs₁ xs₂ : List α} (h : Forall₂ R (xs₁ ++ xs₂) ys) :
    ∃ ys₁ ys₂, ys = ys₁ ++ ys₂ ∧ Forall₂ R xs₁ ys₁ ∧ Forall₂ R xs₂ ys₂ := by
  induction xs₁ generalizing ys
  case nil => exact ⟨[], ys, rfl, .nil, h⟩
  case cons x xs₁ hi =>
    cases h
    case cons r h =>
      have ⟨ys₁, ys₂, he, h₁, h₂⟩ := hi h
      exact ⟨_ :: ys₁, ys₂, he ▸ rfl, .cons r h₁, h₂⟩

-- Every pair stands between lists that correspond again.
theorem contexts (h : Forall₂ R xs ys) :
    Forall₂ (fun x y => ∃ pre post ps qs, xs = pre ++ x :: post ∧ ys = ps ++ y :: qs ∧
      Forall₂ R pre ps ∧ R x y ∧ Forall₂ R post qs) xs ys := by
  induction h
  case nil => exact .nil
  case cons r hs hi =>
    refine .cons ⟨[], _, [], _, rfl, rfl, .nil, r, hs⟩ <| hi.imp fun x y h => ?_
    have ⟨pre, post, ps, qs, hx, hy, hp, hr, hq⟩ := h
    exact ⟨_ :: pre, post, _ :: ps, qs, hx ▸ rfl, hy ▸ rfl, .cons r hp, hr, hq⟩

-- Finitely many choices for each element of a list leave finitely many corresponding lists.
theorem finite (choices : ∀ x ∈ xs, { y | R x y }.Finite) : { ys | Forall₂ R xs ys }.Finite := by
  induction xs
  case nil => simp
  case cons x xs hi =>
    have hx := choices x mem_cons_self
    have hs := hi fun z hz => choices z <| mem_cons_of_mem _ hz
    refine (hx.image2 List.cons hs).subset fun ys h => ?_
    cases h
    case cons r h => exact ⟨_, r, _, h, rfl⟩

end List.Forall₂
