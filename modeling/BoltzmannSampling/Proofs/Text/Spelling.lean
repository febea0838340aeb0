import Mathlib
import BoltzmannSampling.Proofs.Json.Numerals
import BoltzmannSampling.Proofs.Number.Shortest

/-!
How doubles are spelled. The text of a finite double is a whole number with places behind a point or with an exponent,
so it is never that of an integer, and this decimal is read as the double.
-/

namespace BoltzmannSampling

open Json.Reader

section Digits

theorem valueOf_append (cs ds : List Char) : valueOf (cs ++ ds) = valueOf cs * 10 ^ ds.length + valueOf ds := by
  have fold (n : Nat) : (ds.map fun d => d.toNat - 48).foldl (fun n d => 10 * n + d) n =
      n * 10 ^ ds.length + valueOf ds := by
    rw [valueOf, Text.ofDigits]
    induction ds generalizing n
    case nil          => simp
    case cons d ds hi =>
      rw [List.map_cons, List.foldl_cons, List.foldl_cons, hi, hi (10 * 0 + (d.toNat - 48)), List.length_cons]
      ring
  rw [valueOf, Text.ofDigits, List.map_append, List.foldl_append, fold]
  rfl

theorem valueOf_zeros_append (n : Nat) (ds : List Char) : valueOf (Decimal.zeros n ++ ds) = valueOf ds := by
  induction n
  case zero      => rfl
  case succ n hi =>
    have zero : valueOf ['0'] = 0 := rfl
    have : Decimal.zeros (n + 1) ++ ds = ['0'] ++ (Decimal.zeros n ++ ds) := rfl
    rw [this, valueOf_append, hi, zero, Nat.zero_mul, Nat.zero_add]

theorem valueOf_append_zeros (ds : List Char) (n : Nat) : valueOf (ds ++ Decimal.zeros n) = valueOf ds * 10 ^ n := by
  have zeros : valueOf (Decimal.zeros n) = 0 := by
    rw [← List.append_nil (Decimal.zeros n), valueOf_zeros_append]
    rfl
  rw [valueOf_append, zeros, Decimal.zeros, List.length_replicate, Nat.add_zero]

theorem isDigit_zeros (n : Nat) : ∀ c ∈ Decimal.zeros n, isDigit c := by
  intro c hc
  rw [List.eq_of_mem_replicate hc]
  decide

theorem signed_natAbs (i : Int) : (if decide (i < 0) = true then -(i.natAbs : Int) else i.natAbs) = i := by
  simp only [decide_eq_true_eq]
  split <;> omega

end Digits

namespace Decimal

-- Digits, those behind a point, and an exponent.
structure Spelling where
  whole : List Char
  places : List Char
  exponent : Option Int

namespace Spelling

variable (w : Spelling)

def fraction : List Char := if w.places.isEmpty then [] else '.' :: w.places

def tail : List Char :=
  match w.exponent with
  | none   => []
  | some e => 'e' :: exponentText e

def text : List Char := w.whole ++ (w.fraction ++ w.tail)

def decimal : Decimal := ⟨valueOf (w.whole ++ w.places), w.exponent.getD 0 - w.places.length⟩

-- A spelling with a fraction or an exponent.
structure Broken : Prop where
  whole  : IsWhole w.whole
  places : ∀ c ∈ w.places, isDigit c
  broken : w.places ≠ [] ∨ w.exponent.isSome

end Spelling

-- The digits of an exponent, at least two of them, behind its sign.
theorem exists_exponentText (e : Int) : ∃ digits, exponentText e = (if e < 0 then '-' else '+') :: digits ∧
    digits ≠ [] ∧ (∀ c ∈ digits, isDigit c) ∧ valueOf digits = e.natAbs := by
  have digits : (toString e.natAbs).toList = Nat.toDigits 10 e.natAbs := Nat.toList_repr
  refine ⟨zeros (2 - (Nat.toDigits 10 e.natAbs).length) ++ Nat.toDigits 10 e.natAbs, ?_, by simp,
    List.forall_mem_append.mpr ⟨isDigit_zeros _, isDigit_of_mem⟩, by rw [valueOf_zeros_append, valueOf_toDigits]⟩
  simp only [exponentText, digits, List.cons_append]

theorem splitSign_exponent {e : Int} {digits : List Char} (shown : exponentText e = (if e < 0 then '-' else '+') :: digits)
    (rest : List Char) : Text.splitSign (exponentText e ++ rest) = (decide (e < 0), digits ++ rest) := by
  rw [shown]
  split
  case isTrue negative  => simp [Text.splitSign, negative]
  case isFalse negative => simp [Text.splitSign, negative]

variable {digits : List Char}

-- The digits of a positive number begin with one that is no zero.
structure Leading (digits : List Char) : Prop where
  nonempty : digits ≠ []
  first    : digits.head? ≠ some '0'
  digit    : ∀ c ∈ digits, isDigit c

-- Some digits, the first of them standing at an exponent.
structure Spelling.Spells (w : Spelling) (digits : List Char) (lead : Int) : Prop where
  broken : w.Broken
  value  : w.decimal.toRat = valueOf digits * 10 ^ (lead + 1 - digits.length)

theorem Leading.take (h : Leading digits) (k : Nat) : IsWhole (digits.take (k + 1)) := by
  refine .inr ⟨by simp [h.nonempty], by simpa [List.head?_take] using h.first, ?_⟩
  exact List.all_eq_true.mpr fun c hc => h.digit c (List.mem_of_mem_take hc)

theorem Leading.append_zeros (h : Leading digits) (k : Nat) : IsWhole (digits ++ zeros k) := by
  refine .inr ⟨by simp [h.nonempty], ?_, ?_⟩
  · rw [List.head?_append_of_ne_nil _ h.nonempty]
    exact h.first
  · exact List.all_eq_true.mpr (List.forall_mem_append.mpr ⟨h.digit, isDigit_zeros k⟩)

theorem spells_fraction (h : Leading digits) (k : Nat) :
    Spelling.Spells ⟨['0'], zeros k ++ digits, none⟩ digits (-k - 1) := by
  refine ⟨⟨.inl rfl, List.forall_mem_append.mpr ⟨isDigit_zeros k, h.digit⟩, .inl (by simp [h.nonempty])⟩, ?_⟩
  have value : valueOf (['0'] ++ (zeros k ++ digits)) = valueOf digits := valueOf_zeros_append (k + 1) digits
  have places : (0 : Int) - (zeros k ++ digits).length = -k - 1 + 1 - digits.length := by
    rw [List.length_append, zeros, List.length_replicate]
    push_cast
    ring
  exact congrArg₂ (fun (n : Nat) (e : Int) => (n : ℚ) * 10 ^ e) value places

theorem spells_integer (h : Leading digits) {k : Nat} (fits : digits.length ≤ k + 1) :
    Spelling.Spells ⟨digits ++ zeros (k + 1 - digits.length), ['0'], none⟩ digits k := by
  refine ⟨⟨h.append_zeros _, List.forall_mem_singleton.mpr (by decide), .inl (by simp)⟩, ?_⟩
  obtain ⟨j, hj⟩ := Nat.exists_eq_add_of_le fits
  have value : valueOf (digits ++ zeros (k + 1 - digits.length) ++ ['0']) = valueOf digits * 10 ^ (j + 1) := by
    have : k + 1 - digits.length = j := by omega
    rw [this, List.append_assoc, zeros, ← List.replicate_succ', ← valueOf_append_zeros, zeros]
  have exponent : (k : Int) + 1 - digits.length = j := by omega
  have point : (0 : Int) - (['0'].length : Nat) = -1 := rfl
  calc ((valueOf (digits ++ zeros (k + 1 - digits.length) ++ ['0']) : ℚ)) * 10 ^ ((0 : Int) - (['0'].length : Nat))
    _ = valueOf digits * 10 ^ (j + 1) * 10 ^ (-1 : Int) := by rw [value, point, Nat.cast_mul, Nat.cast_pow, Nat.cast_ofNat]
    _ = valueOf digits * 10 ^ j                         := by
      rw [pow_succ, zpow_neg_one]
      field_simp
    _ = valueOf digits * 10 ^ ((k : Int) + 1 - digits.length) := by rw [exponent, zpow_natCast]

theorem spells_split (h : Leading digits) {k : Nat} (long : k + 1 < digits.length) :
    Spelling.Spells ⟨digits.take (k + 1), digits.drop (k + 1), none⟩ digits k := by
  refine ⟨⟨h.take k, fun c hc => h.digit c (List.mem_of_mem_drop hc), .inl (by simpa using long)⟩, ?_⟩
  have places : (0 : Int) - (digits.drop (k + 1)).length = k + 1 - digits.length := by
    rw [List.length_drop]
    omega
  exact congrArg₂ (fun (n : Nat) (e : Int) => (n : ℚ) * 10 ^ e)
    (congrArg valueOf (List.take_append_drop (k + 1) digits)) places

theorem spells_exponent (h : Leading digits) (lead : Int) :
    Spelling.Spells ⟨digits.take 1, digits.drop 1, some lead⟩ digits lead := by
  refine ⟨⟨h.take 0, fun c hc => h.digit c (List.mem_of_mem_drop hc), .inr rfl⟩, ?_⟩
  have places : lead - (digits.drop 1).length = lead + 1 - digits.length := by
    have := List.length_pos_of_ne_nil h.nonempty
    rw [List.length_drop]
    omega
  exact congrArg₂ (fun (n : Nat) (e : Int) => (n : ℚ) * 10 ^ e)
    (congrArg valueOf (List.take_append_drop 1 digits)) places

-- Every text of digits spells them.
theorem exists_spelling (h : Leading digits) (lead : Int) :
    ∃ w : Spelling, NumeralStyle.shortest.layout digits lead = w.text ∧ w.Spells digits lead := by
  rw [NumeralStyle.layout]
  split
  case isFalse =>
    refine ⟨_, ?_, spells_exponent h lead⟩
    obtain ⟨c, cs, rfl⟩ := List.exists_cons_of_ne_nil h.nonempty
    cases cs
    case nil  => rfl
    case cons => rfl
  case isTrue =>
    rw [positionalText]
    split
    case isTrue small =>
      obtain ⟨k, hk⟩ := Int.eq_ofNat_of_zero_le (show 0 ≤ -lead - 1 by omega)
      obtain rfl : lead = -k - 1 := by omega
      refine ⟨_, ?_, spells_fraction h k⟩
      simp [Spelling.text, Spelling.fraction, Spelling.tail, h.nonempty]
    case isFalse =>
      obtain ⟨k, rfl⟩ := Int.eq_ofNat_of_zero_le (show 0 ≤ lead by omega)
      simp only [Int.toNat_natCast]
      split
      case isTrue fits =>
        refine ⟨_, ?_, spells_integer h fits⟩
        simp [Spelling.text, Spelling.fraction, Spelling.tail, NumeralStyle.shortest]
      case isFalse long =>
        refine ⟨_, ?_, spells_split h (not_le.mp long)⟩
        have : ¬digits.length ≤ k + 1 := long
        simp [Spelling.text, Spelling.fraction, Spelling.tail, this]

theorem exists_trimmed (digits : List Char) : ∃ k, digits = trimmed digits ++ zeros k := by
  refine ⟨(digits.reverse.takeWhile (· == '0')).length, ?_⟩
  have cut : zeros (digits.reverse.takeWhile (· == '0')).length = (digits.reverse.takeWhile (· == '0')).reverse := by
    rw [zeros, eq_comm, List.eq_replicate_iff]
    refine ⟨List.length_reverse, fun c hc => ?_⟩
    exact beq_iff_eq.mp (List.mem_takeWhile_imp (List.mem_reverse.mp hc) :)
  rw [cut, trimmed, ← List.reverse_append, List.takeWhile_append_dropWhile, List.reverse_reverse]

theorem leading_trimmed {n : Nat} (hn : 0 < n) : Leading (trimmed (Nat.toDigits 10 n)) := by
  obtain ⟨k, hk⟩ := exists_trimmed (Nat.toDigits 10 n)
  have nonempty : trimmed (Nat.toDigits 10 n) ≠ [] := by
    intro empty
    have zero : valueOf (Nat.toDigits 10 n) = valueOf [] * 10 ^ k := by
      rw [hk, empty, valueOf_append_zeros]
    rw [valueOf_toDigits] at zero
    exact hn.ne' (zero.trans (Nat.zero_mul _))
  refine ⟨nonempty, fun first => ?_, fun c hc => isDigit_of_mem (n := n) c ?_⟩
  · obtain ⟨cs, hc⟩ := List.head?_eq_some_iff.mp first
    rw [hc] at hk
    exact hn.ne' (toDigits_head hk)
  · rw [hk]
    exact List.mem_append_left _ hc

-- The trimmed digits of a decimal and the place of the first of them make up its value.
theorem toRat_trimmed (d : Decimal) :
    d.toRat = valueOf (trimmed (spelled d).1) * 10 ^ ((spelled d).2 + 1 - (trimmed (spelled d).1).length) := by
  have digits : (spelled d).1 = Nat.toDigits 10 d.coefficient := Nat.toList_repr
  have lead : (spelled d).2 = d.scale + (Nat.toDigits 10 d.coefficient).length - 1 :=
    congrArg (fun digits : List Char => d.scale + digits.length - 1) digits
  rw [digits, lead]
  obtain ⟨k, hk⟩ := exists_trimmed (Nat.toDigits 10 d.coefficient)
  generalize trimmed (Nat.toDigits 10 d.coefficient) = cut at hk
  have value : d.coefficient = valueOf cut * 10 ^ k := by
    rw [← valueOf_append_zeros, ← hk, valueOf_toDigits]
  have exponent : d.scale + (Nat.toDigits 10 d.coefficient).length - 1 + 1 - cut.length = k + d.scale := by
    rw [hk, List.length_append, zeros, List.length_replicate]
    push_cast
    ring
  rw [exponent, toRat, value, zpow_add₀ (by norm_num), Nat.cast_mul, Nat.cast_pow, Nat.cast_ofNat, zpow_natCast, mul_assoc]

-- The text of a finite double spells a decimal that is read as the double.
theorem exists_text {x : Float} {b : Binary64} (h : Binary64.ofFloat? x = some b) :
    ∃ w : Spelling, (text x).toList = (if b.negative then '-' :: w.text else w.text) ∧ w.Broken ∧
      Binary64.ofDecimal b.negative w.decimal.coefficient w.decimal.scale = x := by
  have ⟨canonical, greatest⟩ := Binary64.canonical_ofFloat? h
  by_cases zero : b.mantissa = 0
  case pos =>
    refine ⟨⟨['0'], ['0'], none⟩, ?_, ⟨.inl rfl, List.forall_mem_singleton.mpr (by decide), .inl (by simp)⟩, ?_⟩
    · simp only [text, h, String.toList_ofList, if_pos zero]
      rfl
    · have least : b.exponent = Binary64.leastExponent := canonical.normal.resolve_left (by omega)
      have packed := Binary64.pack_eq h
      rw [zero, least] at packed
      exact packed
  case neg =>
    have positive : 0 < b.mantissa := Nat.pos_of_ne_zero zero
    have leading : Leading (trimmed (spelled (shortest b)).1) := by
      have digits : (spelled (shortest b)).1 = Nat.toDigits 10 (shortest b).coefficient := Nat.toList_repr
      rw [digits]
      exact leading_trimmed (coefficient_pos canonical greatest positive)
    obtain ⟨w, shown, spells⟩ := exists_spelling leading (spelled (shortest b)).2
    refine ⟨w, ?_, spells.broken, ofDecimal_shortest h positive (spells.value.trans (toRat_trimmed _).symm)⟩
    simp only [text, h, String.toList_ofList, if_neg zero, shown]

-- The other doubles have names.
theorem text_mem {x : Float} (h : x.isFinite ≠ true) : text x ∈ ["nan", "-inf", "inf"] := by
  have named : Binary64.ofFloat? x = none :=
    Option.eq_none_iff_forall_ne_some.mpr fun b hb => h (Binary64.isFinite_of_ofFloat? hb)
  rw [text, named]
  simp only [nonFinite]
  split_ifs <;> simp

end Decimal

end BoltzmannSampling
