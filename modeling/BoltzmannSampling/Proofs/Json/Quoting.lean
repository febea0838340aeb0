import Mathlib
import BoltzmannSampling.Json.Printer
import BoltzmannSampling.Json.Reader
import BoltzmannSampling.Proofs.Text.Quoted

/-!
Quoted texts in documents are read back: every character is written as itself or as an escape that the reader takes
for this character and no other.
-/

namespace BoltzmannSampling

namespace Json

namespace Reader

open Printer

variable {c : Char} {n fuel : Nat} {rest found : List Char}

theorem hexDigit?_digitChar : ∀ n < 16, hexDigit? n.digitChar = some n := by decide

theorem unit?_hex (h : n < 0x10000) : unit? (Text.hex 4 n ++ rest) = some (n, rest) := by
  have place (k : Nat) (hk : k < 16) := hexDigit?_digitChar k hk
  rw [Text.hex_four h]
  simp only [List.cons_append, List.nil_append, unit?, place _ (show n / 16 / 16 / 16 < 16 by omega),
    place _ (Nat.mod_lt _ (show 0 < 16 by decide))]
  congr 2
  omega

-- A character is no unit of a pair, and below the number of code points.
theorem toNat_valid (c : Char) : ¬(0xd800 ≤ c.toNat ∧ c.toNat < 0xe000) ∧ c.toNat < 0x110000 := by
  have valid : c.toNat < 0xd800 ∨ 0xdfff < c.toNat ∧ c.toNat < 0x110000 := c.valid
  omega

theorem escaped?_unit (h : c.toNat < 0x10000) : escaped? (Text.hex 4 c.toNat ++ rest) = some (c, rest) := by
  have valid := (toNat_valid c).1
  have single : ¬(0xd800 ≤ c.toNat ∧ c.toNat < 0xdc00) := by omega
  simp only [escaped?, unit?_hex h, if_neg single, charOf, if_neg valid, Char.ofNat_toNat]

-- The two units of a pair make one character.
theorem escaped?_pair {high low : Nat} (hh : 0xd800 ≤ high ∧ high < 0xdc00) (hl : 0xdc00 ≤ low ∧ low < 0xe000) :
    escaped? (Text.hex 4 high ++ (unit low ++ rest)) =
      some (Char.ofNat (0x10000 + (high - 0xd800) * 0x400 + (low - 0xdc00)), rest) := by
  have second (cs : List Char) : after? [Text.backslash, 'u'] (Text.backslash :: 'u' :: cs) = some cs := rfl
  simp only [escaped?, unit?_hex (show high < 0x10000 by omega), if_pos hh, unit, List.cons_append, second,
    Option.bind_some, unit?_hex (show low < 0x10000 by omega), if_pos hl]

theorem pair_value {first high low k : Nat} (h : first ≤ n) :
    first + (high + (n - first) / k - high) * k + (low + (n - first) % k - low) = n := by
  rw [Nat.add_sub_cancel_left, Nat.add_sub_cancel_left, Nat.add_assoc, Nat.div_add_mod', Nat.add_sub_cancel' h]

theorem escaped?_units (h : 0x10000 ≤ c.toNat) :
    escaped? (Text.hex 4 (0xd800 + (c.toNat - 0x10000) / 0x400) ++
      (unit (0xdc00 + (c.toNat - 0x10000) % 0x400) ++ rest)) = some (c, rest) := by
  have valid := (toNat_valid c).2
  have high : (c.toNat - 0x10000) / 0x400 < 0x400 := by omega
  have low : (c.toNat - 0x10000) % 0x400 < 0x400 := Nat.mod_lt _ (by decide)
  rw [escaped?_pair ⟨Nat.le_add_right .., Nat.add_lt_add_left high 0xd800⟩
    ⟨Nat.le_add_right .., Nat.add_lt_add_left low 0xdc00⟩, pair_value h, Char.ofNat_toNat]

theorem quoted?_escaped {digits : List Char} (h : escaped? digits = some (c, rest)) :
    quoted? (fuel + 1) found (Text.backslash :: 'u' :: digits) = quoted? fuel (c :: found) rest := by
  have other : Text.backslash ≠ Text.doubleQuote := by decide
  simp only [quoted?, if_neg other, if_true, h]

theorem quoted?_escape (c : Char) (fuel : Nat) (found rest : List Char) :
    quoted? (fuel + 1) found (escape c ++ rest) = quoted? fuel (c :: found) rest := by
  simp only [escape]
  split
  case isTrue h =>
    rcases h with rfl | rfl
    · rfl
    · rfl
  case isFalse h =>
    obtain ⟨quote, slash⟩ := not_or.mp h
    split
    case isTrue h => subst h; rfl
    split
    case isTrue h => subst h; rfl
    split
    case isTrue h => subst h; rfl
    split
    case isTrue h => subst h; rfl
    split
    case isTrue h => subst h; rfl
    split
    case isTrue h =>
      have printed : ¬c.toNat < 0x20 := Nat.not_lt.mpr h.1
      simp only [List.singleton_append, quoted?, if_neg quote, if_neg slash, if_neg printed]
    split
    case isTrue h  => exact quoted?_escaped (escaped?_unit h)
    case isFalse h =>
      rw [List.append_assoc, unit, List.cons_append, List.cons_append]
      exact quoted?_escaped (escaped?_units (Nat.le_of_not_lt h))

theorem quoted?_flatMap (cs : List Char) (h : cs.length < fuel) :
    quoted? fuel found (cs.flatMap escape ++ Text.doubleQuote :: rest) =
      some (String.ofList (found.reverse ++ cs), rest) := by
  obtain ⟨fuel, rfl⟩ := Nat.exists_eq_succ_of_ne_zero (Nat.ne_zero_of_lt h)
  induction cs generalizing fuel found
  case nil => simp [quoted?]
  case cons c cs hi =>
    have h := Nat.lt_of_succ_lt_succ h
    obtain ⟨fuel, rfl⟩ := Nat.exists_eq_succ_of_ne_zero (Nat.ne_zero_of_lt h)
    rw [List.flatMap_cons, List.append_assoc, quoted?_escape, hi fuel h, List.reverse_cons, List.append_assoc,
      List.singleton_append]

end Reader

end Json

end BoltzmannSampling
