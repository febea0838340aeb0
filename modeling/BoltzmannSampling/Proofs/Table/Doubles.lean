import Mathlib
import BoltzmannSampling.Proofs.Table.Column
import BoltzmannSampling.Proofs.Text.Numerals

/-!
Doubles in columns. A column of decimals keeps every finite double that its cells have the text of.
-/

namespace BoltzmannSampling

namespace Column

open Json.Reader Decimal

variable {w : Spelling} {cs rest : List Char}

theorem isDigit_eq (c : Char) : c.isDigit = isDigit c := by
  simp [isDigit, Char.isDigit, Char.le_def]

theorem digitRun_append (all : ∀ c ∈ cs, isDigit c) (h : Text.Ends rest) :
    digitRun (cs ++ rest) = (cs.map fun d => d.toNat - 48, rest) := by
  have stops : ∀ c ∈ rest.head?, ¬isDigit c := by
    intro c hc
    obtain rfl | rfl := h c hc
    · decide
    · decide
  have same : Char.isDigit = isDigit := funext isDigit_eq
  have ⟨taken, left⟩ := takeWhile_digits all stops
  have digits : cs.filterMap digit? = cs.map fun d => d.toNat - 48 := by
    rw [← List.filterMap_eq_map]
    exact List.filterMap_congr fun c hc => if_pos ((isDigit_eq c).trans (all c hc))
  rw [digitRun, same, taken, left, digits]

theorem exponent?_text (e : Int) : exponent? (exponentText e) = some e := by
  obtain ⟨digits, shown, nonempty, all, value⟩ := exists_exponentText e
  have sign := splitSign_exponent shown []
  have run := digitRun_append all Text.ends_nil
  simp only [List.append_nil] at run sign
  obtain ⟨d, ds, rfl⟩ := List.exists_cons_of_ne_nil nonempty
  rw [valueOf] at value
  simp only [exponent?, sign, run, List.map_cons] at value ⊢
  rw [value, signed_natAbs]

-- A decimal has a point or an exponent.
theorem numeral?_text {cell : String} {negative : Bool} (h : w.Broken) (signed : Text.Signed cell negative w.text) :
    numeral? cell = some ⟨negative, w.whole.map fun d => d.toNat - 48, w.places.map fun d => d.toNat - 48,
      w.exponent.getD 0, false⟩ := by
  have body : Text.splitSign (Text.trimBy Text.isPlainBlank cell.toList) = (negative, w.text) := by
    rw [signed.trimBy fun c hc => hc.not_blank.2, signed.split]
  have nonempty : w.whole ≠ [] := h.whole.nonempty
  have ends := Text.ends_tail w
  by_cases empty : w.places = []
  case pos =>
    obtain ⟨e, he⟩ := Option.isSome_iff_exists.mp (h.broken.resolve_left (not_not.mpr empty))
    have text : w.text = w.whole ++ 'e' :: exponentText e := by simp [Spelling.text, Spelling.fraction, Spelling.tail, empty, he]
    rw [Spelling.tail, he] at ends
    have run := digitRun_append h.whole.isDigit ends
    simp [numeral?, body, text, run, nonempty, exponent?_text, empty, he]
  case neg =>
    have text : w.text = w.whole ++ '.' :: (w.places ++ w.tail) := by simp [Spelling.text, Spelling.fraction, empty]
    have after : Text.Ends ('.' :: (w.places ++ w.tail)) := fun c hc => .inl (Option.some.inj hc).symm
    have run := digitRun_append h.whole.isDigit after
    have behind := digitRun_append h.places ends
    simp only [numeral?, body, text, run, behind]
    rw [Spelling.tail]
    cases w.exponent
    case none   => simp [nonempty]
    case some e => simp [nonempty, exponent?_text]

theorem keeps {x : Float} (finite : x.isFinite = true) : Keeps x := by
  obtain ⟨negative, w, broken, signed, value⟩ := Text.exists_signed finite
  have ⟨inf, infinity, _⟩ := signed.unnamed
  have named : infinity? (Decimal.text x) = none := by
    simp only [infinity?, signed.split, inf, infinity, or_self, if_false]
  have read : Binary64.ofDecimal negative (Text.ofDigits ((w.whole.map fun d => d.toNat - 48) ++
      w.places.map fun d => d.toNat - 48)) (w.exponent.getD 0 - (w.places.map fun d => d.toNat - 48).length) = x := by
    rw [← List.map_append, List.length_map]
    exact value
  rw [Keeps, nearest?, named]
  simp only [numeral?_text broken signed, read, finite, if_true]

end Column

end BoltzmannSampling
