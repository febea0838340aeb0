import Mathlib
import BoltzmannSampling.Proofs.Sampler.Accounts
import BoltzmannSampling.Proofs.Sampler.Plans
import BoltzmannSampling.Sampler.Basic

/-!
The window of sizes. Attempts are rejected one after the other, and each leaves the source of its decisions to the
next one and nothing else. The first that is not rejected gives a structure of the requested type in the window.
-/

namespace BoltzmannSampling

namespace Sampler

-- An attempt that exceeds the greatest size, or ends below the least.
inductive Rejected {σ : Type} (D : Decider σ) (s : Sampler) (r : DrawRequest) (T : String) (source : σ) : σ → Prop
  | exceeded {source'} (h : Attempt.draw D s s.order r.limit patience source T = .exceeded source') :
      Rejected D s r T source source'
  | small {found a} (h : Attempt.draw D s s.order r.limit patience source T = .done found a)
      (short : r.reaches a.size = false) : Rejected D s r T source a.source

inductive Rejections {σ : Type} (D : Decider σ) (s : Sampler) (r : DrawRequest) (T : String) : Nat → σ → σ → Prop
  | none {source} : Rejections D s r T 0 source source
  | more {k source middle source'} (first : Rejected D s r T source middle)
      (others : Rejections D s r T k middle source') : Rejections D s r T (k + 1) source source'

variable {σ : Type} {D : Decider σ} {s : Sampler} {r : DrawRequest} {T : String}
variable {source source' : σ} {found : Structure} {k : Nat} {lower upper : Int}

theorem attempts_rejected (h : Rejected D s r T source source') (left made : Nat) :
    attempts D s r T (left + 1) made source = attempts D s r T left (made + 1) source' := by
  cases h
  case exceeded h    => simp [attempts, h]
  case small h short => simp [attempts, h, short]

theorem attempts_rejections (h : Rejections D s r T k source source') (left made : Nat) :
    attempts D s r T (left + k) made source = attempts D s r T left (made + k) source' := by
  induction h generalizing made
  case none => rfl
  case more k _ _ _ first _ hi =>
    rw [← Nat.add_assoc, attempts_rejected first, hi, Nat.add_assoc, Nat.add_comm 1 k]

theorem attempts_ok {left made : Nat} (h : attempts D s r T left made source = (.ok found, source')) :
    ∃ k middle a, Rejections D s r T k source middle ∧
      Attempt.draw D s s.order r.limit patience middle T = .done found a ∧ r.reaches a.size = true := by
  induction left generalizing made source
  case zero => simp [attempts] at h
  case succ hi =>
    rw [attempts] at h
    split at h <;> try split at h
    case isTrue a hd hr =>
      cases h
      exact ⟨0, source, a, .none, hd, hr⟩
    case isFalse a hd hr =>
      have ⟨k, middle, b, hk, hb⟩ := hi h
      exact ⟨k + 1, middle, b, .more (.small hd (by simpa using hr)) hk, hb⟩
    case h_2 hd =>
      have ⟨k, middle, b, hk, hb⟩ := hi h
      exact ⟨k + 1, middle, b, .more (.exceeded hd) hk, hb⟩
    case h_3 | h_4 => simp at h

theorem check_ok (h : s.check r = .ok T) : ∃ t ∈ s.system.types, t.name = T ∧ t.isAuxiliary = false ∧
    r.start = some T ∧ Number.lt r.lower (.int 0) = false ∧ Number.lt r.upper r.lower = false := by
  simp only [check] at h
  split at h <;> (repeat' split at h) <;> simp only [reduceCtorEq, Except.ok.injEq] at h
  case _ t ht ha hl hu =>
    have ⟨name, hs, ht⟩ := Option.bind_eq_some_iff.mp ht
    have hn : t.name = name := by simpa using List.find?_some ht
    exact ⟨t, List.mem_of_find?_eq_some ht, h, by simpa using ha, by rw [hs, ← hn, h], by simpa using hl, by simpa using hu⟩

theorem userType_of_check (h : s.check r = .ok T) : ∃ t ∈ s.system.userTypes, t.name = T ∧ r.start = some T := by
  have ⟨t, ht, name, declared, start, _⟩ := check_ok h
  exact ⟨t, List.mem_filter.mpr ⟨ht, by simpa using declared⟩, name, start⟩

theorem bounds_of_check (hl : r.lower = .int lower) (hu : r.upper = .int upper) (h : s.check r = .ok T) :
    0 ≤ lower ∧ lower ≤ upper := by
  have ⟨_, _, _, _, _, hn, hle⟩ := check_ok h
  simp only [hl, hu, Number.lt, Number.compare?, Option.some_beq_some, beq_eq_false_iff_ne, ne_eq, compare_lt_iff_lt,
    Int.not_lt] at hn hle
  exact ⟨hn, hle⟩

theorem reaches_int (hl : r.lower = .int lower) {n : Nat} : r.reaches n ↔ lower ≤ n := by
  simp [DrawRequest.reaches, hl, Number.le, Number.compare?, le_iff_lt_or_eq, compare_lt_iff_lt]

theorem isOver_int (hu : r.upper = .int upper) (nonneg : 0 ≤ upper) {n : Nat} :
    Attempt.isOver r.limit n = false ↔ n ≤ upper := by
  simp only [DrawRequest.limit, hu, Number.floor?, Option.map_some, Attempt.isOver, decide_eq_false_iff_not]
  omega

theorem sample_eq_attempts {g g' : Generator} (accepted : s.check r = .ok T) (h : s.sample r g = (.ok found, g')) :
    ∃ bound stream, attempts (.ofNumbers Stream.next) s r T bound 0 (.start g) = (.ok found, stream) := by
  rw [sample, accepted] at h
  cases hb : attemptsOf r
  case error => simp [hb] at h
  case ok bound =>
    simp only [hb, Prod.mk.injEq] at h
    exact ⟨bound, _, Prod.ext h.1 rfl⟩

-- What is drawn lies in the window, and so far as an attempt goes its counter is that of the nodes built so far and
-- the run being drawn, whatever has been rejected before it.
theorem sample_window (hl : r.lower = .int lower) (hu : r.upper = .int upper) (accepted : s.check r = .ok T) :
    (∀ g found g', s.sample r g = (.ok found, g') → ∃ k source a,
      Rejections (.ofNumbers Stream.next) s r T k (.start g) source ∧
      Attempt.draw (.ofNumbers Stream.next) s s.order r.limit patience source T = .done found a ∧
      r.start = some found.typeName ∧ found.size = a.size ∧ lower ≤ found.size ∧ found.size ≤ upper) ∧
    ∀ {σ : Type} (D : Decider σ) (k : Nat) (source source' : σ), Rejections D s r T k source source' →
      (∀ fuel b, Attempt.draw D s s.order r.limit fuel source' T = .running b →
        b.size = (b.built.map Structure.weight).sum + b.pending ∧ b.nodes = b.built.length ∧ b.size ≤ upper) ∧
      (∀ found a, Attempt.draw D s s.order r.limit patience source' T = .done found a →
        found.typeName = T ∧ found.size = a.size ∧ found.size ≤ upper) ∧
      ∀ left made, attempts D s r T (left + k) made source = attempts D s r T left (made + k) source' := by
  have ⟨hn, hle⟩ := bounds_of_check hl hu accepted
  have within {n : Nat} : Attempt.isOver r.limit n = false ↔ n ≤ upper := isOver_int hu (hn.trans hle)
  constructor
  · intro g found g' hs
    have ⟨bound, stream, ha⟩ := sample_eq_attempts accepted hs
    have ⟨k, source, a, hk, hd, hr⟩ := attempts_ok ha
    have ⟨ht, hz, hw⟩ := Attempt.Accounted.draw_done hd
    refine ⟨k, source, a, hk, hd, ?_, hz, ?_, ?_⟩
    · have ⟨_, _, _, _, hs, _⟩ := check_ok accepted
      rw [ht, hs]
    · rw [hz]
      exact (reaches_int hl).mp hr
    · rw [hz]
      exact within.mp hw
  · intro σ D k source source' hk
    refine ⟨fun fuel b hb => ?_, fun found a ha => ?_, attempts_rejections hk⟩
    · have h := Attempt.Accounted.draw hb
      exact ⟨h.size, h.nodes, within.mp h.within⟩
    · have ⟨ht, hz, hw⟩ := Attempt.Accounted.draw_done ha
      exact ⟨ht, hz, hz ▸ within.mp hw⟩

theorem words_window : (Sampler.ofTuned .words).check ⟨some "Word", .int 1, .int 9, none⟩ = .ok "Word" ∧
    ∀ g found g', (Sampler.ofTuned .words).sample ⟨some "Word", .int 1, .int 9, none⟩ g = (.ok found, g') →
      1 ≤ (found.size : Int) ∧ (found.size : Int) ≤ 9 := by
  refine ⟨rfl, fun g found g' h => ?_⟩
  have ⟨_, _, _, _, _, _, _, window⟩ :=
    (@sample_window (.ofTuned .words) ⟨some "Word", .int 1, .int 9, none⟩ "Word" 1 9 rfl rfl rfl).1 g found g' h
  exact window

end Sampler

end BoltzmannSampling
