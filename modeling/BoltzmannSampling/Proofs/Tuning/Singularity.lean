import Mathlib
import BoltzmannSampling.Proofs.Tuning.Newton

/-!
The search for the singularity, whatever solutions there are and whatever the candidates. The bracket keeps a solution
at its lower end, and once doubling has ended none at its upper end. What the search asks for is a solution at one point
after another; so it is an inquiry, whose questions can be counted.
-/

namespace BoltzmannSampling

-- A computation that asks for solutions at points. What it does next depends on the solutions alone.
inductive Inquiry (α β : Type) where
  | answer (b : β)
  | ask (z : α) (next : Option (List α) → Inquiry α β)

namespace Inquiry

variable {α β γ ε : Type}

def run (solve : α → Option (List α)) : Inquiry α β → β
  | answer b   => b
  | ask z next => (next (solve z)).run solve

-- The points asked about, the first one first.
def asked (solve : α → Option (List α)) : Inquiry α β → List α
  | answer _   => []
  | ask z next => z :: (next (solve z)).asked solve

def andThen (next : β → Inquiry α (Except ε γ)) : Inquiry α (Except ε β) → Inquiry α (Except ε γ)
  | answer (.ok b)    => next b
  | answer (.error e) => answer (.error e)
  | ask z more        => ask z fun y => (more y).andThen next

variable {solve : α → Option (List α)} {next : β → Inquiry α (Except ε γ)}

theorem run_andThen (q : Inquiry α (Except ε β)) :
    (q.andThen next).run solve = (q.run solve).bind fun b => (next b).run solve := by
  induction q
  case answer b    => cases b <;> rfl
  case ask z more hi => exact hi (solve z)

theorem length_asked_andThen_le {m n : Nat} {q : Inquiry α (Except ε β)} (first : (q.asked solve).length ≤ m)
    (others : ∀ b, ((next b).asked solve).length ≤ n) : ((q.andThen next).asked solve).length ≤ m + n := by
  induction q generalizing m
  case answer b =>
    cases b
    case error => exact Nat.zero_le _
    case ok b  => exact (others b).trans (Nat.le_add_left n m)
  case ask z more hi =>
    obtain ⟨m, rfl⟩ := Nat.exists_eq_add_of_le' (Nat.one_le_of_lt first)
    have := hi (solve z) (Nat.le_of_succ_le_succ first)
    simp only [andThen, asked, List.length_cons]
    omega

end Inquiry

namespace Bracket

section

variable {α : Type} [Scalar α] {solve : α → Option (List α)} {precision : α}

def middle (b : Bracket α) : α := Scalar.half * (b.low.z + b.high)

def split (b : Bracket α) : Option (List α) → Bracket α
  | none   => { b with high := b.middle }
  | some y => { b with low := ⟨b.middle, y⟩ }

theorem halve_eq (b : Bracket α) : b.halve solve = b.split (solve b.middle) := by
  cases hs : solve b.middle
  all_goals
    rw [middle] at hs
    simp only [halve, split, middle, hs]

-- The same search as inquiries: doubling, bisection, and one after the other.
def doubling : Nat → Bracket α → Inquiry α (Except (BracketFault α) (Bracket α))
  | 0, _          => .answer (.error .finiteClass)
  | rounds + 1, b => .ask b.high fun
    | none   => .answer (.ok b)
    | some y => doubling rounds ⟨⟨b.high, y⟩, b.high * Scalar.ofNat 2⟩

def bisecting (precision : α) : Nat → Bracket α → Inquiry α (Except (BracketFault α) (Bracket α))
  | 0, b          => .answer (if b.narrow precision then .ok b else .error (.wide b.low.z b.high))
  | rounds + 1, b =>
    if b.narrow precision then .answer (.ok b) else .ask b.middle fun y => bisecting precision rounds (b.split y)

def locating (precision : α) (maxiter : Nat) : Inquiry α (Except (BracketFault α) (Bracket α)) :=
  let start := Scalar.ofNat 0
  .ask start fun
    | none   => .answer (.error .noSolutionAtZero)
    | some y => (doubling doublings ⟨⟨start, y⟩, Scalar.ofNat 1⟩).andThen fun b =>
      (bisecting precision maxiter b).andThen fun b =>
        .answer (if Scalar.le b.low.z start then .error .noPositivePoint else .ok b)

theorem run_doubling (rounds : Nat) (b : Bracket α) : (doubling rounds b).run solve = double solve rounds b := by
  induction rounds generalizing b
  case zero           => rfl
  case succ rounds hi =>
    rw [doubling, double, Inquiry.run]
    cases solve b.high
    case none   => rfl
    case some y => exact hi _

theorem run_bisecting (rounds : Nat) (b : Bracket α) :
    (bisecting precision rounds b).run solve = bisect solve precision rounds b := by
  induction rounds generalizing b
  case zero           => rfl
  case succ rounds hi =>
    rw [bisecting, bisect]
    split
    case isTrue  => rfl
    case isFalse => rw [Inquiry.run, hi, halve_eq]

theorem run_locating (maxiter : Nat) :
    (locating precision maxiter).run solve = locate solve precision maxiter := by
  rw [locating, locate, Inquiry.run]
  cases solve (Scalar.ofNat 0)
  case none   => rfl
  case some y =>
    simp only [Inquiry.run_andThen, run_doubling, run_bisecting]
    rfl

theorem length_asked_doubling (rounds : Nat) (b : Bracket α) : ((doubling rounds b).asked solve).length ≤ rounds := by
  induction rounds generalizing b
  case zero           => exact Nat.le_refl 0
  case succ rounds hi =>
    rw [doubling, Inquiry.asked]
    cases solve b.high
    case none   => exact Nat.succ_le_succ (Nat.zero_le rounds)
    case some y => exact Nat.succ_le_succ (hi _)

theorem length_asked_bisecting (rounds : Nat) (b : Bracket α) :
    ((bisecting precision rounds b).asked solve).length ≤ rounds := by
  induction rounds generalizing b
  case zero           => exact Nat.le_refl 0
  case succ rounds hi =>
    rw [bisecting]
    split
    case isTrue  => exact Nat.zero_le _
    case isFalse => exact Nat.succ_le_succ (hi _)

-- One question at zero, one for each doubling, and one for each halving.
theorem length_asked_locating (maxiter : Nat) :
    ((locating precision maxiter).asked solve).length ≤ doublings + maxiter + 1 := by
  rw [locating, Inquiry.asked]
  cases solve (Scalar.ofNat 0)
  case none   => exact Nat.succ_le_succ (Nat.zero_le _)
  case some y =>
    refine Nat.succ_le_succ <| Inquiry.length_asked_andThen_le (length_asked_doubling ..) fun b => ?_
    exact Inquiry.length_asked_andThen_le (n := 0) (length_asked_bisecting ..) fun _ => Nat.le_refl 0

end

variable {K : Type} [Field K] [LinearOrder K] [IsStrictOrderedRing K]
  {solve : K → Option (List K)} {precision slack : K} {b c : Bracket K} {fault : BracketFault K}

-- The equations are solved at the lower end, whatever there is at the upper end.
structure Proper (solve : K → Option (List K)) (b : Bracket K) : Prop where
  nonneg : 0 ≤ b.low.z
  lt     : b.low.z < b.high
  solved : solve b.low.z = some b.low.y

-- The equations are solved at the lower end and not at the upper end.
structure Encloses (solve : K → Option (List K)) (b : Bracket K) : Prop extends Proper solve b where
  unsolved : solve b.high = none

theorem narrow_iff : b.narrow precision = true ↔ b.high - b.low.z ≤ precision * b.high := by
  simp [narrow]

theorem middle_eq (b : Bracket K) : b.middle = (b.low.z + b.high) / 2 := by
  simp only [middle, Scalar.half, Scalar.ofNat_eq]
  push_cast
  ring

theorem Proper.doubled {y : List K} (h : b.Proper solve) (solved : solve b.high = some y) :
    Proper solve ⟨⟨b.high, y⟩, b.high * Scalar.ofNat 2⟩ where
  nonneg := h.nonneg.trans h.lt.le
  lt     := by
    have positive := h.nonneg.trans_lt h.lt
    simp only [Scalar.ofNat_eq, Nat.cast_ofNat]
    linarith
  solved := solved

theorem Encloses.split (h : b.Encloses solve) : (b.split (solve b.middle)).Encloses solve := by
  have middle := b.middle_eq
  have lt := h.lt
  have nonneg := h.nonneg
  cases hy : solve b.middle
  case none   => exact ⟨⟨nonneg, by simp only [Bracket.split]; linarith, h.solved⟩, hy⟩
  case some y =>
    exact ⟨⟨by simp only [Bracket.split]; linarith, by simp only [Bracket.split]; linarith, hy⟩, h.unsolved⟩

-- Doubling ends by a bracket without a solution at its upper end, or there are solutions at all its powers of two.
theorem Proper.double (h : b.Proper solve) (rounds : Nat) :
    match Bracket.double solve rounds b with
    | .ok c    => c.Encloses solve
    | .error e => e = .finiteClass ∧ ∀ k < rounds, (solve (b.high * 2 ^ k)).isSome = true := by
  induction rounds generalizing b
  case zero           => exact ⟨rfl, nofun⟩
  case succ rounds hi =>
    rw [Bracket.double]
    cases hy : solve b.high
    case none   => exact ⟨h, hy⟩
    case some y =>
      have later := hi (h.doubled hy)
      simp only
      cases hd : Bracket.double solve rounds ⟨⟨b.high, y⟩, b.high * Scalar.ofNat 2⟩ <;> rw [hd] at later
      case ok      => exact later
      case error e =>
        refine ⟨later.1, fun k hk => ?_⟩
        cases k
        case zero   => rw [pow_zero, mul_one, hy, Option.isSome_some]
        case succ k =>
          have := later.2 k (Nat.lt_of_succ_lt_succ hk)
          rwa [Scalar.ofNat_eq, Nat.cast_ofNat, mul_assoc, ← pow_succ'] at this

-- Bisection keeps an enclosing bracket, and ends by a narrow one or gives up at one that is not.
theorem Encloses.bisect (h : b.Encloses solve) (precision : K) (rounds : Nat) :
    match Bracket.bisect solve precision rounds b with
    | .ok c    => c.Encloses solve ∧ c.narrow precision = true
    | .error e => ∃ c : Bracket K, e = .wide c.low.z c.high ∧ c.Encloses solve ∧ c.narrow precision = false := by
  induction rounds generalizing b
  case zero           =>
    rw [Bracket.bisect]
    cases narrow : b.narrow precision
    case true  => exact ⟨h, narrow⟩
    case false => exact ⟨b, rfl, h, narrow⟩
  case succ rounds hi =>
    rw [Bracket.bisect]
    cases narrow : b.narrow precision
    case true  => exact ⟨h, narrow⟩
    case false =>
      have halved : halve solve b = b.split (solve b.middle) := halve_eq b
      exact halved ▸ hi h.split

end Bracket

namespace BracketFault

variable {K : Type} [Field K] [LinearOrder K]

-- When the search for the singularity ends by a fault.
def Arises (solve : K → Option (List K)) (precision : K) : BracketFault K → Prop
  | noSolutionAtZero => solve 0 = none
  | finiteClass      => ∀ k < Bracket.doublings, (solve (2 ^ k)).isSome = true
  | wide low high    => precision * high < high - low ∧ ∃ y, Bracket.Encloses solve ⟨⟨low, y⟩, high⟩
  | noPositivePoint  => 1 ≤ precision

end BracketFault

namespace Bracket

variable {K : Type} [Field K] [LinearOrder K] [IsStrictOrderedRing K]
  {e : Equations} {solve : K → Option (List K)} {precision slack : K} {b : Bracket K} {p : Point K}

theorem locate_outcome (solve : K → Option (List K)) (precision : K) (maxiter : Nat) :
    match locate solve precision maxiter with
    | .ok b        => b.Encloses solve ∧ 0 < b.low.z ∧ b.narrow precision = true
    | .error fault => fault.Arises solve precision := by
  have start : (Scalar.ofNat 0 : K) = 0 := Nat.cast_zero
  have one : (Scalar.ofNat 1 : K) = 1 := Nat.cast_one
  rw [locate, start, one]
  cases solved : solve 0
  case none   => exact solved
  case some y =>
    have proper : Proper solve ⟨⟨0, y⟩, 1⟩ := ⟨le_rfl, one_pos, solved⟩
    have doubled := proper.double doublings
    simp only [bind, Except.bind]
    cases hd : double solve doublings ⟨⟨0, y⟩, 1⟩ <;> rw [hd] at doubled
    case error fault =>
      obtain ⟨rfl, solutions⟩ := doubled
      exact fun k hk => by simpa using solutions k hk
    case ok b =>
      have halved := Encloses.bisect doubled precision maxiter
      simp only
      cases hb : bisect solve precision maxiter b <;> rw [hb] at halved
      case error fault =>
        obtain ⟨c, rfl, encloses, wide⟩ := halved
        rw [← Bool.not_eq_true, narrow_iff, not_le] at wide
        exact ⟨wide, c.low.y, encloses⟩
      case ok c =>
        obtain ⟨encloses, narrow⟩ := halved
        simp only [Scalar.le_eq, decide_eq_true_eq]
        by_cases atZero : c.low.z ≤ 0
        case neg =>
          rw [if_neg atZero]
          exact ⟨encloses, not_le.mp atZero, narrow⟩
        case pos =>
          rw [if_pos atZero]
          -- The lower end has stayed at zero, so that the bracket is as wide as its upper end.
          have width := narrow_iff.mp narrow
          have zero := le_antisymm atZero encloses.nonneg
          have positive := encloses.nonneg.trans_lt encloses.lt
          rw [zero, sub_zero] at width
          exact one_le_of_le_mul_right₀ positive width

-- A candidate that takes the place of the lower end: it is positive, close to the bracket, not far below the solution at
-- the lower end, and it solves the equations within the precision.
structure Polished (e : Equations) (slack precision : K) (b : Bracket K) (p : Point K) : Prop where
  positive : 0 < p.z
  values   : ∀ v ∈ p.y, 0 < v
  above    : b.low.z - slack * b.high ≤ p.z
  below    : p.z ≤ b.high + precision * b.high
  rises    : ∀ (i : Nat) v low, p.y[i]? = some v → b.low.y[i]? = some low → low - slack * Scalar.scale p.y ≤ v
  residual : e.residual p.z p.y ≤ precision * Scalar.scale p.y

theorem all_zipWith_iff {α β : Type} {f : α → β → Bool} {xs : List α} {ys : List β} :
    (List.zipWith f xs ys).all (fun ok => ok) = true ↔
      ∀ (i : Nat) x y, xs[i]? = some x → ys[i]? = some y → f x y = true := by
  rw [List.all_eq_true]
  constructor
  · intro all i x y hx hy
    exact all _ (List.mem_of_getElem? (by rw [List.getElem?_zipWith, hx, hy]))
  · intro each ok h
    have ⟨i, hi⟩ := List.mem_iff_getElem?.mp h
    rw [List.getElem?_zipWith] at hi
    split at hi
    case h_1 x y hx hy => exact Option.some.inj hi ▸ each i x y hx hy
    case h_2           => cases hi

omit [IsStrictOrderedRing K] in
theorem accepts_iff : b.accepts e slack precision p = true ↔ b.Polished e slack precision p := by
  simp only [accepts, Bool.and_eq_true, all_zipWith_iff]
  simp only [List.all_eq_true, Scalar.lt_eq, Scalar.le_eq, Scalar.ofNat_eq, Nat.cast_zero, decide_eq_true_eq,
    Bool.not_eq_true', decide_eq_false_iff_not, not_lt]
  constructor
  · intro ⟨⟨⟨⟨⟨positive, values⟩, above⟩, below⟩, rises⟩, residual⟩
    exact ⟨positive, values, above, below, rises, residual⟩
  · intro ⟨positive, values, above, below, rises, residual⟩
    exact ⟨⟨⟨⟨⟨positive, values⟩, above⟩, below⟩, rises⟩, residual⟩

end Bracket

namespace Equations

def inquiry {α : Type} [Scalar α] (e : Equations) (candidate : Bracket α → Option (Point α)) (slack precision : α)
    (maxiter : Nat) : Inquiry α (Except (BracketFault α) (Point α)) :=
  (Bracket.locating precision maxiter).andThen fun b =>
    .answer (.ok (((candidate b).filter (b.accepts e slack precision)).getD b.low))

theorem run_inquiry {α : Type} [Scalar α] (e : Equations) (solve : α → Option (List α))
    (candidate : Bracket α → Option (Point α)) (slack precision : α) (maxiter : Nat) :
    (e.inquiry candidate slack precision maxiter).run solve = e.singularity solve candidate slack precision maxiter := by
  rw [inquiry, Inquiry.run_andThen, Bracket.run_locating, singularity]
  cases Bracket.locate solve precision maxiter <;> rfl

theorem length_asked_inquiry {α : Type} [Scalar α] (e : Equations) (solve : α → Option (List α))
    (candidate : Bracket α → Option (Point α)) (slack precision : α) (maxiter : Nat) :
    ((e.inquiry candidate slack precision maxiter).asked solve).length ≤ 66 + maxiter := by
  have asked : ((e.inquiry candidate slack precision maxiter).asked solve).length ≤ Bracket.doublings + maxiter + 1 :=
    Inquiry.length_asked_andThen_le (n := 0) (Bracket.length_asked_locating maxiter) fun _ => Nat.le_refl 0
  have : Bracket.doublings = 65 := rfl
  omega

-- The singularity is the lower end of a narrow bracket of solutions, or a candidate close to it; and it takes no more
-- solutions to find it than there are doublings and halvings.
theorem singularity_enclosed (e : Equations) (solve : ℝ → Option (List ℝ)) (candidate : Bracket ℝ → Option (Point ℝ))
    (precision : ℝ) (maxiter : Nat) :
    (e.inquiry candidate (√precision) precision maxiter).run solve =
        e.singularity solve candidate (√precision) precision maxiter ∧
      ((e.inquiry candidate (√precision) precision maxiter).asked solve).length ≤ 66 + maxiter ∧
      match e.singularity solve candidate (√precision) precision maxiter with
      | .error fault => fault.Arises solve precision
      | .ok p        => ∃ b : Bracket ℝ, 0 < b.low.z ∧ b.low.z < b.high ∧ solve b.low.z = some b.low.y ∧
          solve b.high = none ∧ b.high - b.low.z ≤ precision * b.high ∧
          (p = b.low ∨ candidate b = some p ∧ b.Polished e (√precision) precision p) := by
  refine ⟨run_inquiry .., length_asked_inquiry .., ?_⟩
  have located := Bracket.locate_outcome solve precision maxiter
  rw [singularity]
  cases hl : Bracket.locate solve precision maxiter <;> rw [hl] at located
  case error fault => exact located
  case ok b        =>
    have ⟨encloses, positive, narrow⟩ := located
    simp only [Except.map]
    refine ⟨b, positive, encloses.lt, encloses.solved, encloses.unsolved, Bracket.narrow_iff.mp narrow, ?_⟩
    cases hc : (candidate b).filter (b.accepts e (√precision) precision)
    case none   => exact .inl rfl
    case some p =>
      have ⟨found, accepted⟩ := Option.filter_eq_some_iff.mp hc
      exact .inr ⟨found, Bracket.accepts_iff.mp accepted⟩

-- Where there are solutions below one only, one halving is enough for three quarters.
theorem below_one_enclosed :
    let solve (z : ℝ) : Option (List ℝ) := if z < 1 then some [z] else none
    (ofSystem ⟨[], "", []⟩).singularity solve (fun _ => none) (√(3 / 4)) (3 / 4) 1 = .ok ⟨1 / 2, [1 / 2]⟩ ∧
      ∃ b : Bracket ℝ, b.low = ⟨1 / 2, [1 / 2]⟩ ∧ b.low.z < b.high ∧ solve b.high = none := by
  intro solve
  have start : solve 0 = some [0] := if_pos one_pos
  have one : solve 1 = none := if_neg (lt_irrefl 1)
  have half : solve (1 / 2) = some [1 / 2] := if_pos one_half_lt_one
  have located : Bracket.locate solve (3 / 4) 1 = .ok ⟨⟨1 / 2, [1 / 2]⟩, 1⟩ := by
    have wide : Bracket.narrow (3 / 4 : ℝ) ⟨⟨0, [0]⟩, 1⟩ = false := by simp [Bracket.narrow]; norm_num
    have narrow : Bracket.narrow (3 / 4 : ℝ) ⟨⟨1 / 2, [1 / 2]⟩, 1⟩ = true := by simp [Bracket.narrow]; norm_num
    have halved : Bracket.halve solve ⟨⟨0, [0]⟩, 1⟩ = ⟨⟨1 / 2, [1 / 2]⟩, 1⟩ := by
      rw [Bracket.halve_eq, Bracket.middle_eq, zero_add, half, Bracket.split, Bracket.middle_eq, zero_add]
    simp only [Bracket.locate, Scalar.ofNat_eq, Nat.cast_zero, Nat.cast_one, start, Bracket.doublings, Bracket.double,
      one, Bracket.bisect, wide, halved, narrow, bind, Except.bind, if_true, Bool.false_eq_true, if_false]
    norm_num
  have found : (ofSystem ⟨[], "", []⟩).singularity solve (fun _ => none) (√(3 / 4)) (3 / 4) 1 =
      .ok ⟨1 / 2, [1 / 2]⟩ := by
    rw [singularity, located]
    rfl
  have ⟨_, _, outcome⟩ := singularity_enclosed (ofSystem ⟨[], "", []⟩) solve (fun _ => none) (3 / 4) 1
  rw [found] at outcome
  obtain ⟨b, _, lt, _, unsolved, _, low | ⟨none, _⟩⟩ := outcome
  · exact ⟨found, b, low.symm, lt, unsolved⟩
  · cases none

end Equations

end BoltzmannSampling
