import Mathlib

/-!
When a sequence of checks succeeds. Every check of a list has to, and what a later check is given comes from an
earlier one that has. Where it fails, one of the checks does, and no later one says why.
-/

namespace BoltzmannSampling

namespace Checks

variable {ε α β : Type}

theorem bind_eq_ok {x : Except ε α} {f : α → Except ε β} {b : β} :
    (x >>= f) = .ok b ↔ ∃ a, x = .ok a ∧ f a = .ok b := by
  cases x
  case error => simp [bind, Except.bind]
  case ok    => simp [bind, Except.bind]

theorem bind_eq_error {x : Except ε α} {f : α → Except ε β} {e : ε} :
    (x >>= f) = .error e ↔ x = .error e ∨ ∃ a, x = .ok a ∧ f a = .error e := by
  cases x
  case error => simp [bind, Except.bind]
  case ok    => simp [bind, Except.bind]

theorem toOption_bind (x : Except ε α) (f : α → Except ε β) :
    (x >>= f).toOption = x.toOption.bind fun a => (f a).toOption := by
  cases x
  case error => rfl
  case ok    => rfl

theorem exists_of_toOption {x : Except ε α} {f : α → β} {b : β} (h : x.toOption.map f = some b) :
    ∃ a, x = .ok a ∧ f a = b := by
  cases x
  case error => cases h
  case ok a  => exact ⟨a, rfl, Option.some.inj h⟩

theorem forM_eq_ok {check : α → Except ε Unit} {xs : List α} {u : Unit} :
    xs.forM check = .ok u ↔ ∀ x ∈ xs, check x = .ok () := by
  induction xs
  case nil => simp [List.forM, pure, Except.pure]
  case cons x xs hi =>
    change (check x >>= fun _ => xs.forM check) = _ ↔ _
    rw [bind_eq_ok, List.forall_mem_cons]
    constructor
    · rintro ⟨⟨⟩, hx, hs⟩
      exact ⟨hx, hi.mp hs⟩
    · rintro ⟨hx, hs⟩
      exact ⟨(), hx, hi.mpr hs⟩

theorem mapM_eq_ok {f : α → Except ε β} {xs : List α} {ys : List β} :
    xs.mapM f = .ok ys ↔ List.Forall₂ (fun x y => f x = .ok y) xs ys := by
  induction xs generalizing ys
  case nil => cases ys <;> simp [pure, Except.pure]
  case cons x xs hi =>
    rw [List.mapM_cons, bind_eq_ok]
    constructor
    · rintro ⟨y, hy, h⟩
      obtain ⟨ys', hs, h⟩ := bind_eq_ok.mp h
      cases h
      exact .cons hy (hi.mp hs)
    · rintro (_ | ⟨hy, hs⟩)
      exact ⟨_, hy, bind_eq_ok.mpr ⟨_, hi.mpr hs, rfl⟩⟩

theorem mapM_eq_some {f : α → Option β} {xs : List α} {ys : List β} :
    xs.mapM f = some ys ↔ List.Forall₂ (fun x y => f x = some y) xs ys := by
  induction xs generalizing ys
  case nil => cases ys <;> simp
  case cons x xs hi =>
    simp only [List.mapM_cons, Option.bind_eq_bind, Option.bind_eq_some_iff, hi]
    constructor
    · rintro ⟨y, hy, ys, hs, h⟩
      cases h
      exact .cons hy hs
    · rintro (_ | ⟨hy, hs⟩)
      exact ⟨_, hy, _, hs, rfl⟩

theorem foldlM_induction {f : β → α → Except ε β} {xs : List α} {b b' : β} {motive : β → Prop}
    (step : ∀ b, motive b → ∀ x ∈ xs, ∀ b', f b x = .ok b' → motive b') (h : xs.foldlM f b = .ok b') (hb : motive b) :
    motive b' := by
  induction xs generalizing b
  case nil =>
    cases h
    exact hb
  case cons x xs hi =>
    rw [List.foldlM_cons] at h
    have ⟨_, hx, h⟩ := bind_eq_ok.mp h
    exact hi (fun b hb y hy => step b hb y (List.mem_cons_of_mem _ hy)) h (step _ hb x List.mem_cons_self _ hx)

-- A fold fails where the elements before have led.
-- A run over a list comes through if every step does, wherever it starts from.
theorem foldlM_ok {f : β → α → Except ε β} {R : α → Prop} (each : ∀ b x, (∃ b', f b x = .ok b') ↔ R x) {xs : List α}
    (b : β) : (∃ b', xs.foldlM f b = .ok b') ↔ ∀ x ∈ xs, R x := by
  induction xs generalizing b
  case nil => simp [pure, Except.pure]
  case cons x xs hi =>
    simp only [List.foldlM_cons, bind_eq_ok, List.forall_mem_cons, ← each b x]
    constructor
    · intro ⟨b', b₁, first, later⟩
      exact ⟨⟨b₁, first⟩, (hi b₁).mp ⟨b', later⟩⟩
    · intro ⟨⟨b₁, first⟩, later⟩
      have ⟨b', later⟩ := (hi b₁).mpr later
      exact ⟨b', b₁, first, later⟩

theorem foldlM_eq_error {f : β → α → Except ε β} {xs : List α} {b : β} {e : ε} : xs.foldlM f b = .error e ↔
    ∃ before x after b', xs = before ++ x :: after ∧ before.foldlM f b = .ok b' ∧ f b' x = .error e := by
  induction xs generalizing b
  case nil => simp [pure, Except.pure]
  case cons x xs hi =>
    rw [List.foldlM_cons, bind_eq_error]
    constructor
    · rintro (h | ⟨b', hb, h⟩)
      · exact ⟨[], x, xs, b, rfl, rfl, h⟩
      · obtain ⟨before, y, after, b'', rfl, hs, h⟩ := hi.mp h
        exact ⟨x :: before, y, after, b'', rfl, List.foldlM_cons.trans <| bind_eq_ok.mpr ⟨b', hb, hs⟩, h⟩
    · rintro ⟨_ | ⟨y, before⟩, x', after, b'', he, hs, h⟩
      · cases he
        cases hs
        exact .inl h
      · cases he
        obtain ⟨b', hb, hs⟩ := bind_eq_ok.mp (List.foldlM_cons.symm.trans hs)
        exact .inr ⟨b', hb, hi.mpr ⟨before, x', after, b'', rfl, hs, h⟩⟩

theorem exists_of_forM_eq_error {check : α → Except ε Unit} {xs : List α} {e : ε} (h : xs.forM check = .error e) :
    ∃ x ∈ xs, check x = .error e := by
  induction xs
  case nil => cases h
  case cons x xs hi =>
    rcases bind_eq_error.mp h with h | ⟨_, _, h⟩
    · exact ⟨x, List.mem_cons_self, h⟩
    · have ⟨y, hy, h⟩ := hi h
      exact ⟨y, List.mem_cons_of_mem _ hy, h⟩

-- The first element on which a map fails says why, and those before it have been mapped.
theorem mapM_eq_error {f : α → Except ε β} {xs : List α} {e : ε} : xs.mapM f = .error e ↔
    ∃ before x after, xs = before ++ x :: after ∧ (∀ y ∈ before, ∃ z, f y = .ok z) ∧ f x = .error e := by
  induction xs
  case nil => simp [pure, Except.pure]
  case cons x xs hi =>
    rw [List.mapM_cons, bind_eq_error]
    constructor
    · rintro (h | ⟨z, hz, h⟩)
      · exact ⟨[], x, xs, rfl, nofun, h⟩
      · rcases bind_eq_error.mp h with h | ⟨_, _, h⟩
        · obtain ⟨before, y, after, rfl, hs, h⟩ := hi.mp h
          exact ⟨x :: before, y, after, rfl, List.forall_mem_cons.mpr ⟨⟨z, hz⟩, hs⟩, h⟩
        · cases h
    · rintro ⟨_ | ⟨y, before⟩, x', after, he, hs, h⟩
      · cases he
        exact .inl h
      · cases he
        obtain ⟨⟨z, hz⟩, hs⟩ := List.forall_mem_cons.mp hs
        exact .inr ⟨z, hz, bind_eq_error.mpr <| .inl <| hi.mpr ⟨before, x', after, rfl, hs, h⟩⟩

theorem exists_of_mapM_eq_error {f : α → Except ε β} {xs : List α} {e : ε} (h : xs.mapM f = .error e) :
    ∃ x ∈ xs, f x = .error e := by
  obtain ⟨before, x, after, rfl, -, h⟩ := mapM_eq_error.mp h
  exact ⟨x, List.mem_append_right _ List.mem_cons_self, h⟩

theorem exists_of_mapM {f : α → Except ε β} {xs : List α} {ys : List β} (h : xs.mapM f = .ok ys) {y : β}
    (hy : y ∈ ys) : ∃ x ∈ xs, f x = .ok y := by
  have hs := mapM_eq_ok.mp h
  clear h
  induction hs
  case nil => cases hy
  case cons x _ _ _ hx _ hi =>
    rcases List.mem_cons.mp hy with rfl | hy
    · exact ⟨x, List.mem_cons_self, hx⟩
    · have ⟨x, hm, hx⟩ := hi hy
      exact ⟨x, List.mem_cons_of_mem _ hm, hx⟩

-- What fails does so in a way that a predicate allows.
def Fails (P : ε → Prop) (x : Except ε α) : Prop := ∀ e, x = .error e → P e

namespace Fails

variable {P Q : ε → Prop}

theorem ok (a : α) : Fails P (.ok a) := nofun

theorem error {e : ε} (h : P e) : Fails (α := α) P (.error e) := fun _ he => Except.error.inj he ▸ h

theorem mono {x : Except ε α} (hx : Fails P x) (h : ∀ e, P e → Q e) : Fails Q x := fun e he => h e (hx e he)

theorem ite {p : Prop} [Decidable p] {x y : Except ε α} (hx : Fails P x) (hy : Fails P y) :
    Fails P (if p then x else y) := by
  split
  case isTrue  => exact hx
  case isFalse => exact hy

theorem bind {x : Except ε α} {f : α → Except ε β} (hx : Fails P x) (hf : ∀ a, Fails P (f a)) : Fails P (x >>= f) := by
  intro e he
  rcases bind_eq_error.mp he with he | ⟨a, -, he⟩
  · exact hx e he
  · exact hf a e he

theorem map {x : Except ε α} {f : α → β} (hx : Fails P x) : Fails P (x.map f) := by
  cases x
  case error e => exact .error <| hx e rfl
  case ok a    => exact .ok _

theorem forM {check : α → Except ε Unit} {xs : List α} (h : ∀ x ∈ xs, Fails P (check x)) : Fails P (xs.forM check) :=
  fun e he => have ⟨x, hm, hx⟩ := exists_of_forM_eq_error he; h x hm e hx

theorem mapM {f : α → Except ε β} {xs : List α} (h : ∀ x ∈ xs, Fails P (f x)) : Fails P (xs.mapM f) :=
  fun e he => have ⟨x, hm, hx⟩ := exists_of_mapM_eq_error he; h x hm e hx

theorem foldlM {f : β → α → Except ε β} {xs : List α} (h : ∀ b, ∀ x ∈ xs, Fails P (f b x)) (b : β) :
    Fails P (xs.foldlM f b) := by
  induction xs generalizing b
  case nil => exact .ok b
  case cons x xs hi =>
    rw [List.foldlM_cons]
    exact .bind (h b x List.mem_cons_self) <| hi fun b y hy => h b y (List.mem_cons_of_mem _ hy)

end Fails

-- How a computation fails if not in a way that a predicate allows.
def Escapes (P : ε → Prop) (x : Except ε α) (e : ε) : Prop := x = .error e ∧ ¬P e

section

variable {P : ε → Prop} {e : ε}

theorem Fails.not_escapes {x : Except ε α} (h : Fails P x) : ¬Escapes P x e := fun ⟨he, hn⟩ => hn (h e he)

theorem fails_of_not_escapes {x : Except ε α} (h : ∀ e, ¬Escapes P x e) : Fails P x := fun e he =>
  of_not_not fun hn => h e ⟨he, hn⟩

theorem escapes_error {e' : ε} (h : ¬P e') : Escapes (α := α) P (.error e') e ↔ e = e' := by
  constructor
  · rintro ⟨he, -⟩
    exact (Except.error.inj he).symm
  · rintro rfl
    exact ⟨rfl, h⟩

theorem escapes_ok_bind {a : α} {f : α → Except ε β} : Escapes P (.ok a >>= f) e ↔ Escapes P (f a) e := Iff.rfl

theorem escapes_bind {x : Except ε α} {f : α → Except ε β} :
    Escapes P (x >>= f) e ↔ Escapes P x e ∨ ∃ a, x = .ok a ∧ Escapes P (f a) e := by
  simp only [Escapes, bind_eq_error, or_and_right, ← exists_and_right, and_assoc]

theorem escapes_bind_ok {x : Except ε α} {f : α → β} : Escapes P (x >>= fun a => .ok (f a)) e ↔ Escapes P x e := by
  rw [escapes_bind]
  refine or_iff_left ?_
  rintro ⟨a, -, h⟩
  exact (Fails.ok _).not_escapes h

theorem escapes_mapM {f : α → Except ε β} {xs : List α} : Escapes P (xs.mapM f) e ↔
    ∃ before x after, xs = before ++ x :: after ∧ (∀ y ∈ before, ∃ z, f y = .ok z) ∧ Escapes P (f x) e := by
  simp only [Escapes, mapM_eq_error, ← exists_and_right, and_assoc]

theorem escapes_foldlM {f : β → α → Except ε β} {xs : List α} {b : β} : Escapes P (xs.foldlM f b) e ↔
    ∃ before x after b', xs = before ++ x :: after ∧ before.foldlM f b = .ok b' ∧ Escapes P (f b' x) e := by
  simp only [Escapes, foldlM_eq_error, ← exists_and_right, and_assoc]

end

end Checks

end BoltzmannSampling
