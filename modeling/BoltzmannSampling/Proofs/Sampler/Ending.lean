import Mathlib
import BoltzmannSampling.Proofs.Sampler.Steady

/-!
Attempts can always be brought to their end. The nodes on top that need no atoms are finished one after the other, and
there are only so many of them; with the first that needs atoms the attempt grows, and it cannot grow beyond the limit.
-/

namespace BoltzmannSampling

namespace Regime

open Attempt

variable {R : Regime} {upper longest widest wait size nodes k : Nat} {u : Float} {a : Attempt Unit} {p : Site}
variable {f : Frame} {rest : List Frame} {run refs : List String} {above others : List Site}

theorem light_fits (valid : f.Valid R.tuned R.order run refs) (light : R.Light f) :
    ∃ x : Filling, x.Fits R.tuned.system f run refs ∧ x.size = 0 := by
  have runs : ∀ r ∈ run, r ∈ R.nullable := fun r hr =>
    have ⟨slot, hs, stands⟩ := valid.run.exists_right hr
    nullable_of_standsFor stands fun T c he => by
      have ⟨_, _, hs⟩ := List.mem_map.mp hs
      exact nomatch hs.trans he
  have args : ∀ r ∈ refs, r ∈ R.nullable := fun r hr =>
    have ⟨slot, hs, stands⟩ := valid.slots.exists_right hr
    nullable_of_standsFor stands fun T c he => light.slots T c (he ▸ hs)
  have ⟨due, hd, zd⟩ := Specification.exists_empty_parts light.due
  have ⟨runs, hr, zr⟩ := Specification.exists_empty_parts runs
  have ⟨parts, hp, zp⟩ := Specification.exists_empty_parts args
  have ⟨held, hh, zh⟩ := Specification.exists_empty_parts light.waits
  exact ⟨⟨due, runs, parts, held⟩, ⟨hd, hr, hp, hh⟩, by simp [Filling.size, Filling.all, zd, zr, zp, zh]⟩

-- Nodes that need no atoms take a step each at least.
theorem exists_below (valid : ∀ q ∈ above, q.Valid R.tuned R.order) (light : ∀ q ∈ above, R.Light q.frame)
    (c : Structure) : ∃ ts k w, Below R.tuned R.order above c ts 0 k w ∧ above.length ≤ k := by
  induction above generalizing c
  case nil => exact ⟨[], 0, c, .root, le_rfl⟩
  case cons q above hi =>
    have ⟨hq, valid⟩ := List.forall_mem_cons.mp valid
    have ⟨lq, light⟩ := List.forall_mem_cons.mp light
    have ⟨x, fits, size⟩ := light_fits (hq c) (light_receive.mpr lq)
    have ⟨ts, k, w, below, hk⟩ := hi valid light (x.result (q.frame.receive c))
    have below := Below.parent ((Filling.fits_receive c).mp fits) below
    rw [size] at below
    exact ⟨_, _, w, below, by simp [Filling.steps]; omega⟩

theorem Steady.length_lt (h : R.Steady upper longest widest a p others) (ha : above <+: others)
    (top : R.Light p.frame) (light : ∀ q ∈ above, R.Light q.frame) : above.length < longest := by
  have ⟨x, fits, size⟩ := light_fits h.consists.top top
  have ⟨ts, k, w, below, hk⟩ := exists_below (fun q hq => h.consists.below q (ha.subset hq)) light (x.result p.frame)
  have remaining : R.Remaining p above 0 (x.steps + k) :=
    ⟨_, [], w, x, fits, ts, 0, k, below, Decider.script_follows.mpr rfl, size.symm, rfl⟩
  have := h.bounded above ha 0 _ remaining h.within
  simp only [Filling.steps] at this
  omega

def Over : Progress Unit → Prop
  | .done _ _ | .exceeded _ => True
  | .running _ | .stuck _   => False

theorem Can.keep {goal inv : Progress Unit → Prop} {P : Progress Unit} (h : R.Can goal k P) (hP : inv P)
    (step : ∀ a, ∀ u ∈ R.pool, inv (.running a) → inv (R.step u a)) : R.Can (fun Q => goal Q ∧ inv Q) k P := by
  induction h
  case now h             => exact .now ⟨h, hP⟩
  case later number _ hi => exact .later number (hi (step _ _ number hP))

-- How many steps it takes at most to finish so many nodes.
def span (most widest wait : Nat) : Nat :=
  (most + 1) * ((wait + 1) * (widest + 1) + 1)

-- By induction on the nodes below, as long as those on top need no atoms.
theorem climbs (pool : R.pool.Nonempty) (ready : R.Ready wait f)
    (below : ∀ g ∈ rest, ∀ c, R.Ready wait (g.receive c)) (few : ∀ g ∈ f :: rest, R.tasks g ≤ widest) {most : Nat}
    (light : ∀ above, above <+: f :: rest → (∀ g ∈ above, R.Light g) → above.length ≤ most) (size nodes : Nat) :
    R.Can (fun P => Grown size P ∨ Over P) (span most widest wait) (.running ⟨(), size, nodes, f :: rest⟩) := by
  induction rest generalizing f most nodes
  case nil =>
    have ⟨first, _⟩ := List.forall_mem_cons.mp few
    have steps := Nat.le_mul_of_pos_left ((wait + 1) * (widest + 1) + 1) most.succ_pos
    refine ((ready.closes pool first size nodes []).bind (l := 0) fun P h => ?_).mono steps
    cases h
    case inl grown => exact .now (.inl grown)
    case inr h     =>
      obtain ⟨_, _, _, rfl⟩ := h
      exact .now (.inr trivial)
  case cons q others hi =>
    have ⟨next, below⟩ := List.forall_mem_cons.mp below
    have ⟨first, few⟩ := List.forall_mem_cons.mp few
    have ⟨second, few⟩ := List.forall_mem_cons.mp few
    rw [span, Nat.succ_mul, Nat.add_comm]
    refine (ready.closes pool first size nodes (q :: others)).bind fun P h => ?_
    cases h
    case inl grown => exact .now (.inl grown)
    case inr h     =>
      obtain ⟨lf, nodes, g, rfl⟩ := h
      have one := light [f] (List.cons_prefix_cons.mpr ⟨rfl, List.nil_prefix⟩) (by simpa using lf)
      obtain ⟨most, rfl⟩ := Nat.exists_eq_succ_of_ne_zero (Nat.one_le_iff_ne_zero.mp one)
      have few : ∀ g' ∈ q.receive g.close :: others, R.tasks g' ≤ widest :=
        List.forall_mem_cons.mpr ⟨(R.tasks_receive q g.close).trans_le second, few⟩
      refine hi (next g.close) below few (fun above ha la => ?_) nodes
      cases above
      case nil            => exact Nat.zero_le _
      case cons r above =>
        have ⟨same, shorter⟩ := List.cons_prefix_cons.mp ha
        have ⟨lq, la⟩ := List.forall_mem_cons.mp la
        have ha : f :: q :: above <+: f :: q :: others :=
          List.cons_prefix_cons.mpr ⟨rfl, List.cons_prefix_cons.mpr ⟨rfl, shorter⟩⟩
        exact Nat.le_of_succ_le_succ <| light (f :: q :: above) ha <|
          List.forall_mem_cons.mpr ⟨lf, List.forall_mem_cons.mpr ⟨light_receive.mp (same ▸ lq), la⟩⟩

theorem Steady.grows (steady : R.Steady upper longest widest a p others) (h : R.Bounded upper longest widest wait) :
    R.Can (fun P => Grown a.size P ∨ Over P) (span longest widest wait) (.running a) := by
  have stack := steady.consists.stack
  obtain ⟨_, size, nodes, _⟩ := a
  subst stack
  refine climbs h.numbers (h.ready steady.consists.top) (List.forall_mem_map.mpr fun q hq c => ?_) ?_ ?_ size nodes
  · exact h.ready (steady.consists.below q hq c)
  · rw [← List.map_cons]
    exact List.forall_mem_map.mpr steady.few
  · intro above ha light
    cases above
    case nil            => exact Nat.zero_le _
    case cons g above =>
      have ⟨same, shorter⟩ := List.cons_prefix_cons.mp ha
      obtain ⟨sites, hs, rfl⟩ := List.prefix_map_iff.mp shorter
      have ⟨top, light⟩ := List.forall_mem_cons.mp light
      have := steady.length_lt hs (same ▸ top) (List.forall_mem_map.mp light)
      simpa using this

-- By induction on the atoms that the limit leaves.
theorem Steady.ends (h : R.Bounded upper longest widest wait) (left : Nat)
    (steady : R.Steady upper longest widest a p others) (enough : upper < a.size + left) :
    R.Can Over (left * span longest widest wait) (.running a) := by
  induction left generalizing a p others
  case zero         => exact absurd steady.within (by omega)
  case succ left hi =>
    rw [Nat.succ_mul, Nat.add_comm]
    have keeps : R.Keeps upper longest widest (.running a) := ⟨p, others, steady⟩
    refine ((steady.grows h).keep keeps fun b u hu ⟨_, _, steady⟩ => h.step steady hu).bind fun P h => ?_
    have ⟨goal, keeps⟩ := h
    cases P
    case done | exceeded => exact .now trivial
    case stuck           => exact keeps.elim
    case running b       =>
      have ⟨q, others, steady⟩ := keeps
      have grown : a.size < b.size := goal.resolve_right id
      exact hi steady (by omega)

theorem Keeps.ends {P : Progress Unit} (keeps : R.Keeps upper longest widest P)
    (h : R.Bounded upper longest widest wait) :
    R.Can Over ((upper + 1) * span longest widest wait) P := by
  cases P
  case done | exceeded => exact .now trivial
  case stuck           => exact keeps.elim
  case running a       =>
    have ⟨_, _, steady⟩ := keeps
    exact steady.ends h (upper + 1) (by omega)

theorem Bounded.begin (h : R.Bounded upper longest widest wait) (hu : u ∈ R.pool) {t : TypeDef}
    (ht : t ∈ R.tuned.system.userTypes) : R.Keeps upper longest widest (R.enter u ⟨(), 0, 0, []⟩ t.name) := by
  refine h.enter [] hu ht (by simp) (by simp) fun above ha n k opening hn => ?_
  exact h.opening_le (List.prefix_nil.mp ha ▸ opening) (Nat.le_of_add_left_le hn)

end Regime

end BoltzmannSampling
