import Mathlib
import BoltzmannSampling.Proofs.Random.Stream
import BoltzmannSampling.Proofs.Sampler.Jobs
import BoltzmannSampling.Proofs.Sampler.Window

/-!
A request without the buffer. All its attempts share one stream, which draws its numbers a block at a time; each begins
where the last one has stopped. So a request is a loop of attempts that take the numbers of the generator one by one,
and it leaves the generator at the end of the last block that it has begun.
-/

namespace BoltzmannSampling

section Sources

variable {σ τ : Type}

namespace Attempt

def map (φ : σ → τ) (a : Attempt σ) : Attempt τ := ⟨φ a.source, a.size, a.nodes, a.stack⟩

end Attempt

namespace Progress

def map (φ : σ → τ) : Progress σ → Progress τ
  | running a       => running (a.map φ)
  | done found a    => done found (a.map φ)
  | exceeded source => exceeded (φ source)
  | stuck source    => stuck (φ source)

theorem map_on (φ : σ → τ) (P : Progress Unit) (source : σ) : (P.on source).map φ = P.on (φ source) := by
  cases P <;> rfl

end Progress

variable {s : Sampler} {order : DrawOrder} {limit : Option Nat} {r : DrawRequest} {T : String}

-- Two sources that give the same numbers, one the image of the other.
variable {next : σ → Float × σ} {next' : τ → Float × τ} {φ : σ → τ}
  (same : ∀ x, next' (φ x) = ((next x).1, φ (next x).2))

include same

namespace Attempt

theorem enter_map (a : Attempt σ) (T : String) :
    enter (.ofNumbers next') s limit (a.map φ) T = (enter (.ofNumbers next) s limit a T).map φ := by
  let b : Attempt Unit := ⟨(), a.size, a.nodes, a.stack⟩
  change enter (.ofNumbers next') s limit (b.on (φ a.source)) T = (enter (.ofNumbers next) s limit (b.on a.source) T).map φ
  rw [enter_on, enter_on, Progress.map_on, same]
  cases entersDrawing s T <;> rfl

theorem step_map (a : Attempt σ) :
    step (.ofNumbers next') s order limit (a.map φ) = (step (.ofNumbers next) s order limit a).map φ := by
  let b : Attempt Unit := ⟨(), a.size, a.nodes, a.stack⟩
  change step (.ofNumbers next') s order limit (b.on (φ a.source)) =
    (step (.ofNumbers next) s order limit (b.on a.source)).map φ
  rw [step_on, step_on, Progress.map_on, same]
  cases draws s order b <;> rfl

theorem steps_map (fuel : Nat) (a : Attempt σ) :
    steps (.ofNumbers next') s order limit fuel (a.map φ) = (steps (.ofNumbers next) s order limit fuel a).map φ := by
  induction fuel generalizing a
  case zero         => rfl
  case succ fuel hi =>
    rw [steps, steps, step_map same]
    cases step (.ofNumbers next) s order limit a
    case running b               => exact hi b
    case done | exceeded | stuck => rfl

theorem draw_map (fuel : Nat) (source : σ) (T : String) :
    draw (.ofNumbers next') s order limit fuel (φ source) T =
      (draw (.ofNumbers next) s order limit fuel source T).map φ := by
  have first : enter (.ofNumbers next') s limit ⟨φ source, 0, 0, []⟩ T =
    (enter (.ofNumbers next) s limit ⟨source, 0, 0, []⟩ T).map φ := enter_map same ⟨source, 0, 0, []⟩ T
  rw [draw, draw, first]
  cases enter (.ofNumbers next) s limit ⟨source, 0, 0, []⟩ T
  case running a               => exact steps_map same fuel a
  case done | exceeded | stuck => rfl

end Attempt

namespace Sampler

theorem attemptsWithin_map (fuel left made : Nat) (source : σ) :
    attemptsWithin fuel (.ofNumbers next') s r T left made (φ source) =
      ((attemptsWithin fuel (.ofNumbers next) s r T left made source).1,
        φ (attemptsWithin fuel (.ofNumbers next) s r T left made source).2) := by
  induction left generalizing made source
  case zero         => rfl
  case succ left hi =>
    rw [attemptsWithin, attemptsWithin, Attempt.draw_map same]
    cases Attempt.draw (.ofNumbers next) s s.order r.limit fuel source T
    case running | stuck => rfl
    case exceeded source => exact hi (made + 1) source
    case done found a    =>
      simp only [Progress.map, settle, Attempt.map]
      split
      · rfl
      · exact hi (made + 1) a.source

end Sampler

end Sources

namespace Attempt

variable {σ : Type} {D : Decider σ} {s : Sampler} {order : DrawOrder} {limit : Option Nat} {source : σ} {T : String}
  {P : Progress σ}

-- An attempt ends in this way, however many steps it takes.
structure ComesTo (D : Decider σ) (s : Sampler) (order : DrawOrder) (limit : Option Nat) (source : σ) (T : String)
    (P : Progress σ) : Prop where
  ends : ∀ a, P ≠ .running a
  run  : ∃ fuel, draw D s order limit fuel source T = P

theorem steps_more {fuel more : Nat} {a : Attempt σ} (enough : fuel ≤ more) (ends : ∀ b, P ≠ .running b)
    (h : steps D s order limit fuel a = P) : steps D s order limit more a = P := by
  induction fuel generalizing more a
  case zero         => exact absurd h.symm (ends a)
  case succ fuel hi =>
    obtain ⟨more, rfl⟩ := Nat.exists_eq_add_of_le' (Nat.one_le_of_lt enough)
    rw [steps] at h ⊢
    cases hs : step D s order limit a <;> rw [hs] at h
    case running b               => exact hi (Nat.le_of_succ_le_succ enough) h
    case done | exceeded | stuck => exact h

theorem ComesTo.enough (h : ComesTo D s order limit source T P) :
    ∃ enough, ∀ fuel, enough ≤ fuel → draw D s order limit fuel source T = P := by
  obtain ⟨enough, run⟩ := h.run
  refine ⟨enough, fun fuel le => ?_⟩
  rw [draw] at run ⊢
  cases hs : enter D s limit ⟨source, 0, 0, []⟩ T <;> rw [hs] at run
  case running b               => exact steps_more le h.ends run
  case done | exceeded | stuck => exact run

end Attempt

namespace DrawRequest

variable {r : DrawRequest} {n : Nat} {lower upper : Int}

-- Whether a size lies in the window.
def fits (r : DrawRequest) (n : Nat) : Bool := r.reaches n && !Attempt.isOver r.limit n

theorem fits_int (hl : r.lower = .int lower) (hu : r.upper = .int upper) (nonneg : 0 ≤ upper) :
    r.fits n ↔ lower ≤ n ∧ n ≤ upper := by
  rw [fits, Bool.and_eq_true, Bool.not_eq_true', Sampler.reaches_int hl, Sampler.isOver_int hu nonneg]

end DrawRequest

namespace Sampler

-- An attempt that exceeds the window, or ends outside of it.
inductive Discarded {σ : Type} (D : Decider σ) (s : Sampler) (r : DrawRequest) (T : String) (source : σ) : σ → Prop
  | exceeded {source'} (h : Attempt.ComesTo D s s.order r.limit source T (.exceeded source')) :
      Discarded D s r T source source'
  | outside {found a} (h : Attempt.ComesTo D s s.order r.limit source T (.done found a))
      (misses : r.fits found.size = false) : Discarded D s r T source a.source

-- So many of them, each from where the last one has stopped.
inductive Discards {σ : Type} (D : Decider σ) (s : Sampler) (r : DrawRequest) (T : String) : Nat → σ → σ → Prop
  | none {source} : Discards D s r T 0 source source
  | more {n source middle source'} (first : Discarded D s r T source middle)
      (others : Discards D s r T n middle source') : Discards D s r T (n + 1) source source'

variable {σ : Type} {D : Decider σ} {s : Sampler} {r : DrawRequest} {T : String} {source source' : σ}
  {found : Structure} {a : Attempt σ} {n left made fuel : Nat}

-- A finished attempt is not over the limit, so that it is in the window if it is large enough.
theorem fits_of_done (h : Attempt.draw D s s.order r.limit fuel source T = .done found a) :
    r.fits found.size = r.reaches a.size := by
  have ⟨_, size, within⟩ := Attempt.Accounted.draw_done h
  rw [DrawRequest.fits, size, within, Bool.not_false, Bool.and_true]

theorem Discarded.enough (h : Discarded D s r T source source') : ∃ enough, ∀ fuel, enough ≤ fuel →
    ∀ left made, attemptsWithin fuel D s r T (left + 1) made source =
      attemptsWithin fuel D s r T left (made + 1) source' := by
  cases h
  case exceeded h =>
    obtain ⟨enough, run⟩ := h.enough
    exact ⟨enough, fun fuel le left made => by rw [attemptsWithin, run fuel le, settle]⟩
  case outside found a h misses =>
    obtain ⟨enough, run⟩ := h.enough
    refine ⟨enough, fun fuel le left made => ?_⟩
    have short : r.reaches a.size = false := fits_of_done (run fuel le) ▸ misses
    rw [attemptsWithin, run fuel le, settle, short, if_neg Bool.false_ne_true]

theorem Discards.enough (h : Discards D s r T n source source') : ∃ enough, ∀ fuel, enough ≤ fuel →
    ∀ left made, attemptsWithin fuel D s r T (left + n) made source =
      attemptsWithin fuel D s r T left (made + n) source' := by
  induction h
  case none                   => exact ⟨0, fun _ _ _ _ => rfl⟩
  case more n _ _ _ first _ hi =>
    obtain ⟨one, first⟩ := first.enough
    obtain ⟨rest, others⟩ := hi
    refine ⟨max one rest, fun fuel le left made => ?_⟩
    rw [← Nat.add_assoc, first fuel (le_of_max_le_left le), others fuel (le_of_max_le_right le), Nat.add_assoc,
      Nat.add_comm 1 n]

theorem attemptsWithin_ok {middle : σ} (made : Nat) (others : Discards D s r T n source middle)
    (comes : Attempt.ComesTo D s s.order r.limit middle T (.done found a)) (fits : r.fits found.size = true) :
    ∃ enough, ∀ fuel, enough ≤ fuel → ∀ left, n < left →
      attemptsWithin fuel D s r T left made source = (.ok found, a.source) := by
  obtain ⟨before, others⟩ := others.enough
  obtain ⟨last, run⟩ := comes.enough
  refine ⟨max before last, fun fuel le left lt => ?_⟩
  obtain ⟨left, rfl⟩ := Nat.exists_eq_add_of_lt lt
  have run := run fuel (le_of_max_le_right le)
  rw [Nat.add_assoc, Nat.add_comm, others fuel (le_of_max_le_left le), attemptsWithin, run, settle, ← fits_of_done run,
    fits, if_pos rfl]

theorem attemptsWithin_exceeded (made : Nat) (all : Discards D s r T n source source') : ∃ enough, ∀ fuel, enough ≤ fuel →
    attemptsWithin fuel D s r T n made source =
      (.error (.sampling (.attemptsExceeded (made + n) r.lower r.upper)), source') := by
  obtain ⟨enough, all⟩ := all.enough
  refine ⟨enough, fun fuel le => ?_⟩
  have := all fuel le 0 made
  rwa [Nat.zero_add] at this

-- What comes of an attempt: a structure in the window, an attempt more, or nothing that can be told.
theorem attemptsWithin_cases (fuel left made : Nat) (source : σ) :
    (∃ found a, Attempt.ComesTo D s s.order r.limit source T (.done found a) ∧ r.fits found.size = true ∧
      attemptsWithin fuel D s r T (left + 1) made source = (.ok found, a.source)) ∨
    (∃ middle, Discarded D s r T source middle ∧ attemptsWithin fuel D s r T (left + 1) made source =
      attemptsWithin fuel D s r T left (made + 1) middle) ∨
    ∃ f source', attemptsWithin fuel D s r T (left + 1) made source = (.error f, source') ∧
      (f = .absent ∨ f = .unfinished) := by
  rw [attemptsWithin]
  cases run : Attempt.draw D s s.order r.limit fuel source T
  case running a         => exact .inr (.inr ⟨_, _, rfl, .inr rfl⟩)
  case stuck source'     => exact .inr (.inr ⟨_, _, rfl, .inl rfl⟩)
  case exceeded source'  => exact .inr (.inl ⟨source', .exceeded ⟨by simp, fuel, run⟩, rfl⟩)
  case done found a      =>
    have comes : Attempt.ComesTo D s s.order r.limit source T (.done found a) := ⟨by simp, fuel, run⟩
    rw [settle, ← fits_of_done run]
    cases hf : r.fits found.size
    case true  => exact .inl ⟨found, a, comes, hf, rfl⟩
    case false => exact .inr (.inl ⟨a.source, .outside comes hf, rfl⟩)

theorem exists_of_attemptsWithin_ok (h : attemptsWithin fuel D s r T left made source = (.ok found, source')) :
    ∃ n middle a, n < left ∧ Discards D s r T n source middle ∧
      Attempt.ComesTo D s s.order r.limit middle T (.done found a) ∧ r.fits found.size = true ∧ a.source = source' := by
  induction left generalizing made source
  case zero         => simp [attemptsWithin] at h
  case succ left hi =>
    rcases attemptsWithin_cases fuel left made source with ⟨_, a, comes, fits, he⟩ | ⟨middle, first, he⟩ | ⟨f, _, he, _⟩
    · cases he.symm.trans h
      exact ⟨0, source, a, left.succ_pos, .none, comes, fits, rfl⟩
    · obtain ⟨n, last, a, lt, others, comes⟩ := hi (he.symm.trans h)
      exact ⟨n + 1, last, a, Nat.succ_lt_succ lt, .more first others, comes⟩
    · cases he.symm.trans h

theorem discards_of_attemptsExceeded {tried : Nat} {lower upper : Number}
    (h : attemptsWithin fuel D s r T left made source =
      (.error (.sampling (.attemptsExceeded tried lower upper)), source')) :
    Discards D s r T left source source' ∧ tried = made + left ∧ lower = r.lower ∧ upper = r.upper := by
  induction left generalizing made source
  case zero         =>
    cases h
    exact ⟨.none, rfl, rfl, rfl⟩
  case succ left hi =>
    rcases attemptsWithin_cases fuel left made source with ⟨_, _, _, _, he⟩ | ⟨middle, first, he⟩ | ⟨f, _, he, hf⟩
    · cases he.symm.trans h
    · obtain ⟨others, sum, bounds⟩ := hi (he.symm.trans h)
      exact ⟨.more first others, by omega, bounds⟩
    · cases he.symm.trans h
      rcases hf with hf | hf <;> cases hf

-- A request whose attempts take so many steps at most, and are so many at most if it has no bound of its own.
def sampleWithin (fuel : Nat) (s : Sampler) (r : DrawRequest) (g : Generator) : Except Failure Structure × Generator :=
  match s.check r, boundOf r with
  | .error e, _             => (.error e, g)
  | _, .error e             => (.error e, g)
  | .ok typeName, .ok bound =>
    let (found, stream) :=
      attemptsWithin fuel (.ofNumbers Stream.next) s r typeName (bound.getD fuel) 0 (Stream.start g)
    (found, stream.generator)

theorem sample_eq (s : Sampler) (r : DrawRequest) (g : Generator) : s.sample r g = s.sampleWithin patience r g := by
  rw [sample, sampleWithin]
  cases s.check r
  case error => rfl
  case ok T  =>
    simp only [attempts_eq, boundOf, attemptsOf]
    cases r.maxAttempts
    case none   => rfl
    case some n =>
      by_cases hn : n < 1
      · simp only [if_pos hn, Except.map]
      · simp only [if_neg hn, Except.map, Option.getD_some]

-- What a request comes to, however many steps it takes.
def Gives (s : Sampler) (r : DrawRequest) (g : Generator) (o : Except Failure Structure) (g' : Generator) : Prop :=
  ∃ fuel, s.sampleWithin fuel r g = (o, g')

theorem boundOf_eq_ok {bound : Option Nat} : boundOf r = .ok bound ↔
    r.maxAttempts.map Int.toNat = bound ∧ ∀ m, r.maxAttempts = some m → 1 ≤ m := by
  cases hm : r.maxAttempts
  case none   => simp [boundOf, hm]
  case some m =>
    rw [boundOf_some hm]
    by_cases h : m < 1
    case pos => simp [h]
    case neg => simp [h, Int.not_lt.mp h]

-- A refusal is one of the request itself, whether of its type and window or of the number of attempts.
theorem exists_of_check_error {e : Failure} (h : s.check r = .error e) : ∃ q, e = .request q := by
  simp only [check] at h
  split at h <;> (repeat' split at h) <;> cases h <;> exact ⟨_, rfl⟩

theorem exists_of_boundOf_error {e : Failure} (h : boundOf r = .error e) : ∃ q, e = .request q := by
  cases hm : r.maxAttempts
  case none   => simp [boundOf, hm] at h
  case some m =>
    rw [boundOf_some hm] at h
    split at h <;> cases h
    exact ⟨_, rfl⟩

-- The same request with the numbers of the generator one by one.
def unbuffered (fuel : Nat) (s : Sampler) (r : DrawRequest) (g : Generator) : Except Failure Structure × Generator :=
  match s.check r, boundOf r with
  | .error e, _             => (.error e, g)
  | _, .error e             => (.error e, g)
  | .ok typeName, .ok bound =>
    let (found, taken) := attemptsWithin fuel (.ofStream g.double) s r typeName (bound.getD fuel) 0 0
    (found, g.after (256 * max 1 (taken ⌈/⌉ 256)))

theorem sampleWithin_eq (fuel : Nat) (s : Sampler) (r : DrawRequest) (g : Generator) :
    s.sampleWithin fuel r g = unbuffered fuel s r g := by
  rw [sampleWithin, unbuffered]
  cases s.check r
  case error => rfl
  case ok T  =>
    cases boundOf r
    case error    => rfl
    case ok bound =>
      have mapped := @attemptsWithin_map Nat Stream s r T (fun i => (g.double i, i + 1)) Stream.next (Stream.past g)
        (Stream.next_past g) fuel (bound.getD fuel) 0 0
      simp only [Stream.start_past, mapped]
      rfl

-- What is no refusal comes of the attempts.
theorem unbuffered_eq_iff {g g' : Generator} {o : Except Failure Structure} (granted : ∀ q, o ≠ .error (.request q)) :
    unbuffered fuel s r g = (o, g') ↔ ∃ T k, s.check r = .ok T ∧ (∀ m, r.maxAttempts = some m → 1 ≤ m) ∧
      attemptsWithin fuel (.ofStream g.double) s r T ((r.maxAttempts.map Int.toNat).getD fuel) 0 0 = (o, k) ∧
      g.after (256 * max 1 (k ⌈/⌉ 256)) = g' := by
  have attempted {e : Failure} (refusal : ∃ q, e = .request q) (h : (.error e, g) = (o, g')) : False := by
    obtain ⟨q, rfl⟩ := refusal
    exact granted q (Prod.mk.inj h).1.symm
  rw [unbuffered]
  cases hc : s.check r
  case error e =>
    refine ⟨fun h => (attempted (exists_of_check_error hc) h).elim, fun ⟨T, _, accepted, _⟩ => ?_⟩
    cases accepted
  case ok T    =>
    cases hb : boundOf r
    case error e  =>
      refine ⟨fun h => (attempted (exists_of_boundOf_error hb) h).elim, fun ⟨T, _, _, allowed, _⟩ => ?_⟩
      cases hb.symm.trans (boundOf_eq_ok.mpr ⟨rfl, allowed⟩)
    case ok bound =>
      obtain ⟨rfl, allowed⟩ := boundOf_eq_ok.mp hb
      constructor
      · intro h
        have ⟨outcome, moved⟩ := Prod.mk.inj h
        exact ⟨T, _, rfl, allowed, Prod.ext outcome rfl, moved⟩
      · rintro ⟨_, k, accepted, _, run, rfl⟩
        cases accepted
        simp only [run]

-- A request without the buffer: its result is that of the first attempt that ends in the window, the attempts before it
-- are discarded, and it fails for their number if they all are. Whole blocks are drawn from the generator.
theorem sample_unbuffered (s : Sampler) (r : DrawRequest) (g : Generator) :
    s.sample r g = s.sampleWithin patience r g ∧
    (∀ fuel, s.sampleWithin fuel r g = unbuffered fuel s r g) ∧
    (∀ found g', s.Gives r g (.ok found) g' ↔ ∃ (T : String) (n : Nat) (i : Nat) (a : Attempt Nat),
      s.check r = .ok T ∧ (∀ m, r.maxAttempts = some m → n < m) ∧
      Discards (.ofStream g.double) s r T n 0 i ∧
      Attempt.ComesTo (.ofStream g.double) s s.order r.limit i T (.done found a) ∧ r.fits found.size = true ∧
      g' = g.after (256 * max 1 (a.source ⌈/⌉ 256))) ∧
    ∀ m, r.maxAttempts = some m → ∀ tried g',
      (s.Gives r g (.error (.sampling (.attemptsExceeded tried r.lower r.upper))) g' ↔ ∃ (T : String) (k : Nat),
        s.check r = .ok T ∧ 1 ≤ m ∧ (tried : Int) = m ∧ Discards (.ofStream g.double) s r T tried 0 k ∧
        g' = g.after (256 * max 1 (k ⌈/⌉ 256))) := by
  have within (fuel : Nat) := sampleWithin_eq fuel s r g
  refine ⟨s.sample_eq r g, within, fun found g' => ⟨fun ⟨fuel, gives⟩ => ?found, ?first⟩,
    fun m hm tried g' => ⟨fun ⟨fuel, gives⟩ => ?exceeded, ?discarded⟩⟩
  case found =>
    rw [within, unbuffered_eq_iff (by simp)] at gives
    obtain ⟨T, k, accepted, allowed, run, rfl⟩ := gives
    obtain ⟨n, i, a, lt, others, comes, fits, rfl⟩ := exists_of_attemptsWithin_ok run
    refine ⟨T, n, i, a, accepted, fun m hm => ?_, others, comes, fits, rfl⟩
    have lt : n < m.toNat := by rwa [hm] at lt
    omega
  case first =>
    rintro ⟨T, n, i, a, accepted, bounded, others, comes, fits, rfl⟩
    obtain ⟨enough, run⟩ := attemptsWithin_ok 0 others comes fits
    let fuel := max enough (n + 1)
    have left : n < (r.maxAttempts.map Int.toNat).getD fuel := by
      cases hm : r.maxAttempts
      case none   => exact le_max_right enough (n + 1)
      case some m =>
        have := bounded m hm
        show n < m.toNat
        omega
    have allowed (m : Int) (hm : r.maxAttempts = some m) : 1 ≤ m := by
      have := bounded m hm
      omega
    refine ⟨fuel, ?_⟩
    rw [within, unbuffered_eq_iff (by simp)]
    exact ⟨T, a.source, accepted, allowed, run fuel (le_max_left enough (n + 1)) _ left, rfl⟩
  case exceeded =>
    rw [within, unbuffered_eq_iff (by simp)] at gives
    obtain ⟨T, k, accepted, allowed, run, rfl⟩ := gives
    obtain ⟨all, sum, _⟩ := discards_of_attemptsExceeded run
    have positive := allowed m hm
    have count : tried = m.toNat := by rwa [Nat.zero_add, hm] at sum
    rw [hm, Option.map_some, Option.getD_some, ← count] at all
    exact ⟨T, k, accepted, positive, by omega, all, rfl⟩
  case discarded =>
    rintro ⟨T, k, accepted, positive, rfl, all, rfl⟩
    obtain ⟨enough, run⟩ := attemptsWithin_exceeded 0 all
    have allowed (m : Int) (hm' : r.maxAttempts = some m) : 1 ≤ m := by
      cases hm.symm.trans hm'
      exact positive
    refine ⟨enough, ?_⟩
    rw [within, unbuffered_eq_iff (by simp)]
    refine ⟨T, k, accepted, allowed, ?_, rfl⟩
    rw [hm, Option.map_some, Option.getD_some, Int.toNat_natCast, run enough le_rfl, Nat.zero_add]

-- The first word has one atom only, the second one eight. Together they take sixteen numbers of one block.
theorem words_unbuffered :
    let r : DrawRequest := ⟨some "Word", .int 2, .int 9, some 3⟩
    let g : Generator := ⟨0, 1⟩
    ∃ found n i, found.size = 8 ∧ (ofTuned .words).Gives r g (.ok found) (g.after 256) ∧ n < 3 ∧
      Discards (.ofStream g.double) (ofTuned .words) r "Word" n 0 i := by
  intro r g
  have accepted : (ofTuned .words).check r = .ok "Word" := rfl
  have ⟨_, within, first, _⟩ := sample_unbuffered (ofTuned .words) r g
  have run : (match attemptsWithin 100 (.ofStream g.double) (ofTuned .words) r "Word" 3 0 0 with
    | (.ok found, k) => found.size == 8 && k == 16
    | _              => false) = true := by decide +kernel
  have gives : (ofTuned .words).sampleWithin 100 r g = _ := within 100
  have three : boundOf r = .ok (some 3) := rfl
  rw [unbuffered, accepted, three] at gives
  simp only [Option.getD_some] at gives
  generalize attemptsWithin 100 (.ofStream g.double) (ofTuned .words) r "Word" 3 0 0 = result at run gives
  obtain ⟨o, k⟩ := result
  cases o
  case error    => cases run
  case ok found =>
    obtain ⟨size, rfl⟩ : found.size = 8 ∧ k = 16 := by simpa using run
    have blocks : 256 * max 1 (16 ⌈/⌉ 256) = 256 := rfl
    simp only [blocks] at gives
    obtain ⟨T, n, i, _, same, bounded, discards, _⟩ := (first found _).mp ⟨100, gives⟩
    cases same
    exact ⟨found, n, i, size, ⟨100, gives⟩, by simpa using bounded 3 rfl, discards⟩

end Sampler

end BoltzmannSampling
