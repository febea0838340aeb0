import Mathlib
import BoltzmannSampling.Text.Quoted

/-!
Hexadecimal digits and parts with a separator between them, one digit and one part at a time.
-/

namespace BoltzmannSampling

namespace Text

variable {n width : Nat}

theorem hex_one (h : n < 16) : hex 1 n = [n.digitChar] := by
  rw [hex, Nat.toDigits_of_lt_base h]
  rfl

-- The last digit of a hexadecimal number of some width.
theorem hex_succ (n : Nat) (hw : 0 < width) : hex (width + 1) n = hex width (n / 16) ++ [(n % 16).digitChar] := by
  by_cases h : n < 16
  case pos =>
    rw [hex, hex, Nat.div_eq_of_lt h, Nat.mod_eq_of_lt h, Nat.toDigits_of_lt_base h, Nat.toDigits_zero]
    simp only [List.length_singleton, Nat.add_sub_cancel]
    rw [← List.replicate_succ', Nat.sub_add_cancel hw]
  case neg =>
    rw [hex, hex, Nat.toDigits_of_base_le (by decide) (Nat.le_of_not_lt h)]
    simp only [List.length_append, List.length_singleton, Nat.add_sub_add_right, List.append_assoc]

theorem hex_four (h : n < 0x10000) : hex 4 n =
    [(n / 16 / 16 / 16).digitChar, (n / 16 / 16 % 16).digitChar, (n / 16 % 16).digitChar, (n % 16).digitChar] := by
  rw [hex_succ n (by decide), hex_succ _ (by decide), hex_succ _ (by decide), hex_one (by omega)]
  rfl

theorem joined_singleton (separator part : String) : joined separator [part] = part := by
  simp [joined]

theorem toList_joined (separator part next : String) (parts : List String) :
    (joined separator (part :: next :: parts)).toList =
      part.toList ++ (separator.toList ++ (joined separator (next :: parts)).toList) := by
  simp [joined]

end Text

end BoltzmannSampling
