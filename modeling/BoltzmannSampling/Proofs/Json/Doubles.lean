import Mathlib
import BoltzmannSampling.Proofs.Text.Spelling

/-!
Doubles in documents. Every finite double is read back from its text.
-/

namespace BoltzmannSampling

namespace Json

open Reader Decimal

variable {w : Spelling} {rest : List Char}

namespace Reader

-- A double ends where the digits of its exponent do.
theorem exponent_tail (w : Spelling) (stops : Stops rest) : exponent (w.tail ++ rest) = (w.exponent, rest) := by
  obtain ⟨ends, -, none⟩ := stops.ends
  rw [Spelling.tail]
  split
  case h_1 he   => rw [he]; exact none
  case h_2 e he =>
    obtain ⟨digits, shown, nonempty, all, value⟩ := exists_exponentText e
    have sign := splitSign_exponent shown rest
    obtain ⟨taken, left⟩ := takeWhile_digits all ends
    have read : Text.ofDigits (digits.map fun d => d.toNat - 48) = e.natAbs := value
    have some_digit : digits.isEmpty = false := List.isEmpty_eq_false_iff.mpr nonempty
    rw [he, List.cons_append]
    simp only [exponent, true_or, if_true, sign, taken, left, some_digit, Bool.false_eq_true, if_false, read,
      signed_natAbs]

-- Behind the places stands the exponent, or what follows.
theorem tail_head (w : Spelling) (stops : Stops rest) :
    (∀ c ∈ (w.tail ++ rest).head?, ¬isDigit c) ∧ ∀ cs, w.tail ++ rest ≠ '.' :: cs := by
  obtain ⟨ends, _⟩ := stops.ends
  rw [Spelling.tail]
  split
  case h_1 =>
    refine ⟨ends, ?_⟩
    rintro cs rfl
    exact absurd stops (by simp [Stops])
  case h_2 => exact ⟨fun c hc => Option.some.inj hc ▸ by decide, fun cs => by simp⟩

theorem fraction_text (h : w.Broken) (stops : Stops rest) :
    fraction (w.fraction ++ (w.tail ++ rest)) = (w.places, w.tail ++ rest) := by
  obtain ⟨ends, point⟩ := tail_head w stops
  rw [Spelling.fraction]
  split
  case isTrue empty =>
    rw [List.isEmpty_iff.mp empty, List.nil_append, fraction.eq_def]
    split
    case h_1 hc => exact absurd hc (point _)
    case h_2    => rfl
  case isFalse some =>
    obtain ⟨taken, left⟩ := takeWhile_digits h.places ends
    rw [List.cons_append]
    simp only [fraction, taken, left, if_neg some]

theorem number?_text (h : w.Broken) (negative : Bool) (stops : Stops rest) :
    number? ((if negative then '-' :: w.text else w.text) ++ rest) =
      some (.float (Binary64.ofDecimal negative w.decimal.coefficient w.decimal.scale), rest) := by
  have parts : w.text ++ rest = w.whole ++ (w.fraction ++ (w.tail ++ rest)) := by
    simp only [Spelling.text, List.append_assoc]
  obtain ⟨unsigned, finite⟩ := h.whole.unsigned (w.fraction ++ (w.tail ++ rest))
  have dot : ∀ c ∈ (w.fraction ++ (w.tail ++ rest)).head?, ¬isDigit c := by
    rw [Spelling.fraction]
    split
    case isTrue  => exact (tail_head w stops).1
    case isFalse => exact fun c hc => Option.some.inj hc ▸ by decide
  have whole := whole?_digits h.whole dot
  have fraction := fraction_text h stops
  have exponent := exponent_tail w stops
  rw [← parts] at unsigned finite whole
  cases negative
  all_goals
    simp only [Bool.false_eq_true, if_false, if_true, List.cons_append, number?, finite, whole, fraction, exponent]
    split
    case h_1 empty none =>
      have broken := h.broken
      rw [empty, (Prod.mk.inj none).1] at broken
      simp at broken
    case h_2 same _ =>
      obtain ⟨rfl, rfl⟩ := Prod.mk.inj same
      rfl

end Reader

theorem readsBack_float {x : Float} (finite : x.isFinite = true) : ReadsBack (.float x) := by
  intro rest stops
  obtain ⟨b, hb⟩ := Binary64.exists_ofFloat? finite
  obtain ⟨w, shown, broken, value⟩ := exists_text hb
  have text : (Printer.number (.float x)).toList = if b.negative then '-' :: w.text else w.text := by
    rw [Printer.number, if_pos finite, shown]
  rw [text, number?_text broken b.negative stops, value]

end Json

end BoltzmannSampling
