import Mathlib
import BoltzmannSampling.Numeric.LinearSystem
import BoltzmannSampling.Proofs.Numeric.Rational

/-!
Elimination in exact arithmetic. A solution that it finds satisfies every row, and where it finds none the rows are
singular: some vector other than zero makes all their left-hand sides zero. Hence it solves `(I − M) x = b` whenever
`I − M` is invertible.
-/

namespace BoltzmannSampling

variable {K : Type} [Field K] [LinearOrder K]

namespace LinearRow

variable {p r s : LinearRow K} {rest : List (LinearRow K)} {x : K} {xs : List K}

-- The left-hand side of a row.
def value (r : LinearRow K) (xs : List K) : K := (List.zipWith (· * ·) r.coefficients xs).sum

-- The left-hand side without the first unknown.
def restValue (r : LinearRow K) (xs : List K) : K := (List.zipWith (· * ·) r.coefficients.tail xs).sum

theorem value_cons (h : r.coefficients ≠ []) : r.value (x :: xs) = r.lead * x + r.restValue xs := by
  obtain ⟨a, as, ha⟩ := List.exists_cons_of_ne_nil h
  simp [value, restValue, lead, ha]

theorem restValue_zero (r : LinearRow K) (n : Nat) : r.restValue (List.replicate n 0) = 0 := by
  rw [restValue]
  generalize r.coefficients.tail = as
  induction as generalizing n
  case nil => rfl
  case cons a as hi =>
    cases n
    case zero   => rfl
    case succ n => simp [List.replicate_succ, hi]

theorem first_eq (r : LinearRow K) (xs : List K) : r.first xs = (r.constant - r.restValue xs) / r.lead := by
  rw [first, Scalar.sum_eq, restValue]

theorem value_eliminate (h : r.coefficients.length = p.coefficients.length) :
    (p.eliminate r).value xs = r.restValue xs - r.lead / p.lead * p.restValue xs := by
  have general (as ps xs : List K) (f : K) (h : as.length = ps.length) :
      (List.zipWith (· * ·) (List.zipWith (fun a p => a - f * p) as ps) xs).sum =
        (List.zipWith (· * ·) as xs).sum - f * (List.zipWith (· * ·) ps xs).sum := by
    induction as generalizing ps xs
    case nil => simp [List.length_eq_zero_iff.mp h.symm]
    case cons a as hi =>
      obtain ⟨p, ps, rfl⟩ := List.exists_cons_of_length_eq_add_one h.symm
      cases xs
      case nil => simp
      case cons x xs =>
        simp only [List.zipWith_cons_cons, List.sum_cons, hi ps xs (Nat.succ.inj h)]
        ring
  exact general _ _ _ _ (by simp [h])

theorem constant_eliminate (p r : LinearRow K) :
    (p.eliminate r).constant = r.constant - r.lead / p.lead * p.constant := rfl

theorem length_eliminate (h : r.coefficients.length = p.coefficients.length) :
    (p.eliminate r).coefficients.length = r.coefficients.length - 1 := by
  simp [eliminate, h]

theorem pivot_perm (r : LinearRow K) (rest : List (LinearRow K)) :
    ((r.pivot rest).1 :: (r.pivot rest).2).Perm (r :: rest) := by
  induction rest generalizing r
  case nil => exact .refl _
  case cons s rest hi =>
    simp only [pivot]
    split
    case isTrue  => exact (List.Perm.swap ..).trans ((hi s).cons r)
    case isFalse => exact .refl _

theorem lead_le_pivot (h : s ∈ r :: rest) : |s.lead| ≤ |(r.pivot rest).1.lead| := by
  induction rest generalizing r
  case nil => exact (List.mem_singleton.mp h).symm ▸ le_rfl
  case cons q rest hi =>
    simp only [pivot, Scalar.lt_eq, Scalar.abs_eq, decide_eq_true_eq]
    split
    case isTrue hl =>
      rcases List.mem_cons.mp h with rfl | h
      · exact hl.le
      · exact hi h
    case isFalse hl =>
      rcases List.mem_cons.mp h with rfl | h
      · exact le_rfl
      · exact (hi h).trans (not_lt.mp hl)

-- A solution of the rows without the first unknown extends to one of the pivot and of the row they come from.
theorem value_first (hl : p.lead ≠ 0) (hp : p.coefficients ≠ []) : p.value (p.first xs :: xs) = p.constant := by
  rw [value_cons hp, first_eq, mul_div_cancel₀ _ hl, sub_add_cancel]

theorem value_of_eliminate (hr : r.coefficients ≠ [])
    (length : r.coefficients.length = p.coefficients.length) (h : (p.eliminate r).value xs = (p.eliminate r).constant) :
    r.value (p.first xs :: xs) = r.constant := by
  rw [value_eliminate length, constant_eliminate] at h
  rw [value_cons hr, first_eq]
  have hf : r.lead * ((p.constant - p.restValue xs) / p.lead) = r.lead / p.lead * (p.constant - p.restValue xs) := by
    ring
  rw [hf]
  linear_combination h

end LinearRow

namespace LinearSystem

open LinearRow Matrix

variable {n : Nat} {r : LinearRow K} {rows rest : List (LinearRow K)} {xs : List K}

def Square (rows : List (LinearRow K)) : Prop := ∀ r ∈ rows, r.coefficients.length = rows.length

-- The row taken first, and the others without the first unknown.
def chosen (r : LinearRow K) (rest : List (LinearRow K)) : LinearRow K := (r.pivot rest).1

def remaining (r : LinearRow K) (rest : List (LinearRow K)) : List (LinearRow K) :=
  (r.pivot rest).2.map (chosen r rest).eliminate

theorem solve?_cons [IsStrictOrderedRing K] (r : LinearRow K) (rest : List (LinearRow K)) : solve? (r :: rest) =
    if (chosen r rest).lead = 0 then none
    else (solve? (remaining r rest)).map fun xs => (chosen r rest).first xs :: xs := by
  have steps : solve? (r :: rest) =
      if Scalar.le (Scalar.abs (chosen r rest).lead) (Scalar.ofNat 0) then none
      else (solve? (remaining r rest)).map fun xs => (chosen r rest).first xs :: xs := by
    rw [solve?, remaining, chosen]
    cases solve? ((r.pivot rest).2.map (r.pivot rest).1.eliminate) <;> rfl
  simp [steps]

theorem length_of_mem_pivot {q : LinearRow K} (square : Square (r :: rest))
    (h : q ∈ chosen r rest :: (r.pivot rest).2) : q.coefficients.length = rest.length + 1 :=
  square q <| (pivot_perm r rest).mem_iff.mp h

theorem length_remaining : (remaining r rest).length = rest.length := by
  rw [remaining, List.length_map, length_pivot]

theorem Square.remaining (square : Square (r :: rest)) : Square (remaining r rest) := by
  refine List.forall_mem_map.mpr fun q hq => ?_
  have hp := length_of_mem_pivot square List.mem_cons_self
  have hq := length_of_mem_pivot square (List.mem_cons_of_mem _ hq)
  rw [length_eliminate (hq.trans hp.symm), hq, length_remaining]
  rfl

-- Back substitution: what satisfies the rows without the first unknown satisfies all of them, with the first unknown
-- from the row chosen.
theorem satisfied_of_eliminated {p : LinearRow K} {others : List (LinearRow K)} (hl : p.lead ≠ 0)
    (lengths : ∀ q ∈ p :: others, q.coefficients.length = n + 1)
    (h : ∀ q ∈ others, (p.eliminate q).value xs = (p.eliminate q).constant) :
    ∀ q ∈ p :: others, q.value (p.first xs :: xs) = q.constant := by
  have nonempty : ∀ q ∈ p :: others, q.coefficients ≠ [] := fun q hq => List.ne_nil_of_length_eq_add_one (lengths q hq)
  intro q hq
  rcases List.mem_cons.mp hq with rfl | hm
  · exact value_first hl (nonempty q hq)
  · exact value_of_eliminate (nonempty q hq) ((lengths q hq).trans (lengths p List.mem_cons_self).symm) (h q hm)

theorem solve?_satisfied [IsStrictOrderedRing K] (square : Square rows) (h : solve? rows = some xs) :
    xs.length = rows.length ∧ ∀ q ∈ rows, q.value xs = q.constant := by
  induction hn : rows.length generalizing rows xs
  case zero =>
    obtain rfl := List.length_eq_zero_iff.mp hn
    rw [solve?] at h
    cases h
    simp
  case succ n hi =>
    obtain ⟨r, rest, rfl⟩ := List.exists_cons_of_length_eq_add_one hn
    rw [solve?_cons] at h
    split at h
    case isTrue     => cases h
    case isFalse hl =>
      obtain ⟨ys, hs, rfl⟩ := Option.map_eq_some_iff.mp h
      obtain ⟨length, satisfied⟩ := hi square.remaining hs (length_remaining.trans (Nat.succ.inj hn))
      have all := satisfied_of_eliminated hl (fun q hq => length_of_mem_pivot square hq) <|
        List.forall_mem_map.mp satisfied
      exact ⟨by rw [List.length_cons, length], fun q hq => all q <| (pivot_perm r rest).mem_iff.mpr hq⟩

-- A row with zero for its constant.
def homogeneous (q : LinearRow K) : LinearRow K := ⟨q.coefficients, 0⟩

theorem eliminate_homogeneous (p q : LinearRow K) :
    (homogeneous p).eliminate (homogeneous q) = homogeneous (p.eliminate q) := by
  simp [eliminate, homogeneous, lead]

theorem zero_of_remaining (square : Square (r :: rest)) (hl : (chosen r rest).lead ≠ 0)
    (zero : ∀ q ∈ remaining r rest, q.value xs = 0) :
    ∀ q ∈ r :: rest, q.value ((homogeneous (chosen r rest)).first xs :: xs) = 0 := by
  have pivot : (homogeneous (chosen r rest)).lead ≠ 0 := hl
  have lengths : ∀ q ∈ homogeneous (chosen r rest) :: (r.pivot rest).2.map homogeneous,
      q.coefficients.length = rest.length + 1 := by
    rw [← List.map_cons]
    refine List.forall_mem_map.mpr fun q hq => ?_
    exact @length_of_mem_pivot K _ _ r rest q square hq
  have eliminated : ∀ q ∈ (r.pivot rest).2.map homogeneous,
      ((homogeneous (chosen r rest)).eliminate q).value xs = ((homogeneous (chosen r rest)).eliminate q).constant := by
    refine List.forall_mem_map.mpr fun q hq => ?_
    rw [eliminate_homogeneous]
    exact zero ((chosen r rest).eliminate q) (List.mem_map_of_mem hq)
  intro q hq
  have hm := List.mem_map_of_mem (f := homogeneous) <| (pivot_perm r rest).mem_iff.mpr hq
  exact satisfied_of_eliminated pivot lengths eliminated (homogeneous q) hm

-- All first coefficients are zero if the greatest of them is.
theorem value_unit [IsStrictOrderedRing K] (hl : (chosen r rest).lead = 0) {q : LinearRow K} (hq : q ∈ r :: rest)
    (n : Nat) : q.value (1 :: List.replicate n 0) = 0 := by
  have lead : q.lead = 0 := by
    have := lead_le_pivot hq
    rwa [← chosen, hl, abs_zero, abs_nonpos_iff] at this
  by_cases h : q.coefficients = []
  case pos => simp [value, h]
  case neg => rw [value_cons h, lead, restValue_zero, zero_mul, zero_add]

theorem solve?_singular [IsStrictOrderedRing K] (square : Square rows) (h : solve? rows = none) :
    ∃ xs, xs.length = rows.length ∧ (∃ x ∈ xs, x ≠ 0) ∧ ∀ q ∈ rows, q.value xs = 0 := by
  induction hn : rows.length generalizing rows
  case zero =>
    obtain rfl := List.length_eq_zero_iff.mp hn
    rw [solve?] at h
    cases h
  case succ n hi =>
    obtain ⟨r, rest, rfl⟩ := List.exists_cons_of_length_eq_add_one hn
    rw [solve?_cons] at h
    split at h
    case isTrue hl =>
      exact ⟨1 :: List.replicate n 0, by simp, ⟨1, List.mem_cons_self, one_ne_zero⟩, fun q hq => value_unit hl hq n⟩
    case isFalse hl =>
      obtain ⟨xs, length, ⟨x, hx, ne⟩, zero⟩ :=
        hi square.remaining (Option.map_eq_none_iff.mp h) (length_remaining.trans (Nat.succ.inj hn))
      exact ⟨_ :: xs, by rw [List.length_cons, length], ⟨x, List.mem_cons_of_mem _ hx, ne⟩,
        zero_of_remaining square hl zero⟩

-- Rows of numbers as a square matrix, and a vector as a function.
def matrix (n : Nat) (m : List (List K)) : Matrix (Fin n) (Fin n) K := .of fun i j => (m.getD i []).getD j 0

def vector (n : Nat) (xs : List K) : Fin n → K := fun i => xs.getD i 0

theorem value_eq (hr : r.coefficients.length = n) (hx : xs.length = n) :
    r.value xs = ∑ j : Fin n, r.coefficients.getD j 0 * xs.getD j 0 := by
  have products : List.zipWith (· * ·) r.coefficients xs =
      List.ofFn fun j : Fin n => r.coefficients.getD j 0 * xs.getD j 0 := by
    refine List.ext_getElem (by simp [hr, hx]) fun j _ _ => ?_
    simp [hr, hx]
  rw [value, products, List.sum_ofFn]

variable {m : List (List K)} {b : List K}

theorem matrix_unitMinus (hm : m.length = n) (square : ∀ row ∈ m, row.length = n) :
    matrix n (unitMinus n m) = 1 - matrix n m := by
  ext i j
  have hi : (i : Nat) < m.length := hm.symm ▸ i.isLt
  have hj : (j : Nat) < (m[(i : Nat)]).length := (square _ (List.getElem_mem hi)).symm ▸ j.isLt
  simp [matrix, unitMinus, hi, List.getElem?_zipWith, List.getElem?_eq_getElem hj, Matrix.one_apply,
    Fin.ext_iff]

theorem square_unitMinus (hm : m.length = n) (square : ∀ row ∈ m, row.length = n) :
    (unitMinus n m).length = n ∧ ∀ row ∈ unitMinus n m, row.length = n := by
  refine ⟨by simp [unitMinus, hm], fun row hr => ?_⟩
  obtain ⟨i, hi, rfl⟩ := List.getElem_of_mem hr
  have hi : i < m.length := by simpa [unitMinus, hm] using hi
  simp [unitMinus, square _ (List.getElem_mem hi)]

omit [Field K] [LinearOrder K] in
theorem square_rows (hm : m.length = n) (square : ∀ row ∈ m, row.length = n) (hb : b.length = n) :
    (LinearSystem.rows m b).length = n ∧ Square (LinearSystem.rows m b) := by
  have length : (LinearSystem.rows m b).length = n := by simp [LinearSystem.rows, hm, hb]
  refine ⟨length, fun r hr => ?_⟩
  obtain ⟨i, hi, rfl⟩ := List.getElem_of_mem hr
  have hi : i < m.length := by simpa [LinearSystem.rows, hm, hb] using hi
  rw [length]
  simp [LinearSystem.rows, square _ (List.getElem_mem hi)]

-- The left-hand sides of the rows are the entries of the product.
theorem value_rows (hm : m.length = n) (square : ∀ row ∈ m, row.length = n) (hb : b.length = n) (hx : xs.length = n)
    (i : Fin n) :
    ∃ r ∈ LinearSystem.rows m b, r.value xs = (matrix n m *ᵥ vector n xs) i ∧ r.constant = vector n b i := by
  have hi : (i : Nat) < m.length := hm.symm ▸ i.isLt
  have hk : (i : Nat) < b.length := hb.symm ▸ i.isLt
  refine ⟨⟨m[(i : Nat)], b[(i : Nat)]⟩, ?_, ?_, by simp [vector, hk]⟩
  · have hr : (i : Nat) < (LinearSystem.rows m b).length := by simp [LinearSystem.rows, hi, hk]
    have row : (LinearSystem.rows m b)[(i : Nat)] = ⟨m[(i : Nat)], b[(i : Nat)]⟩ := by simp [LinearSystem.rows]
    exact row ▸ List.getElem_mem hr
  · rw [value_eq (square _ (List.getElem_mem hi)) hx]
    simp [matrix, vector, Matrix.mulVec, dotProduct, hi]

theorem solve?_of_isUnit [IsStrictOrderedRing K] (hm : m.length = n) (square : ∀ row ∈ m, row.length = n)
    (hb : b.length = n) (regular : IsUnit (matrix n m)) :
    ∃ xs, solve? (LinearSystem.rows m b) = some xs ∧ xs.length = n ∧ matrix n m *ᵥ vector n xs = vector n b := by
  have ⟨length, squares⟩ := square_rows hm square hb
  cases h : solve? (LinearSystem.rows m b)
  case some xs =>
    have ⟨hx, satisfied⟩ := solve?_satisfied squares h
    have hx := hx.trans length
    refine ⟨xs, rfl, hx, funext fun i => ?_⟩
    have ⟨r, hr, hv, hc⟩ := value_rows hm square hb hx i
    rw [← hv, ← hc, satisfied r hr]
  case none =>
    have ⟨xs, hx, ⟨x, hm', ne⟩, zero⟩ := solve?_singular squares h
    have hx := hx.trans length
    have kernel : matrix n m *ᵥ vector n xs = matrix n m *ᵥ 0 := by
      rw [Matrix.mulVec_zero]
      refine funext fun i => ?_
      have ⟨r, hr, hv, _⟩ := value_rows hm square hb hx i
      rw [← hv, zero r hr, Pi.zero_apply]
    have vanishes := Matrix.mulVec_injective_iff_isUnit.mpr regular kernel
    obtain ⟨i, hi, rfl⟩ := List.getElem_of_mem hm'
    have := congrFun vanishes ⟨i, hx ▸ hi⟩
    exact absurd (by simpa [vector, hi] using this) ne

-- The system `(I − M) x = b` has a solution by elimination if `I − M` is invertible.
theorem solve?_unitMinus [IsStrictOrderedRing K] (hm : m.length = n) (square : ∀ row ∈ m, row.length = n)
    (hb : b.length = n) (regular : IsUnit (1 - matrix n m)) :
    ∃ xs, solve? (LinearSystem.rows (unitMinus n m) b) = some xs ∧ xs.length = n ∧
      vector n xs = matrix n m *ᵥ vector n xs + vector n b := by
  rw [← matrix_unitMinus hm square] at regular
  have ⟨length, squares⟩ := square_unitMinus hm square
  have ⟨xs, hs, hx, h⟩ := solve?_of_isUnit length squares hb regular
  refine ⟨xs, hs, hx, ?_⟩
  rw [← h, matrix_unitMinus hm square, Matrix.sub_mulVec, Matrix.one_mulVec, add_sub_cancel]

end LinearSystem

end BoltzmannSampling
