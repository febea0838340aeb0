import Mathlib
import BoltzmannSampling.Proofs.Checks
import BoltzmannSampling.Proofs.Text.Numerals
import BoltzmannSampling.Settings

/-!
Annotations by numbers and by their texts. A setting in doubles is read alike from a finite number and from its text. A
setting in integers is read alike from an integer and from its text, unless this is too long; from a double without
fraction it is read, but never from the text of one.
-/

namespace BoltzmannSampling

namespace Annotations

def wholeKeys : List String := ["maxiter", "samples", "lowerBound", "upperBound", "seed"]

def realKeys : List String := ["precision", "expectedSize"]

-- Numbers that an integer setting reads from their texts, and those that it does not read at all.
def Whole : Number → Prop
  | .int i   => (Nat.toDigits 10 i.natAbs).length ≤ Text.longestInteger
  | .float x => int? (.number (.float x)) = none

-- Numbers in the range of doubles.
def Ranged : Number → Prop
  | .int i   => (Binary64.ofInt? i).isSome
  | .float x => x.isFinite

-- The value of an annotation, or the text of its number.
inductive Respelled (key : String) : Json → Json → Prop
  | same (doc : Json) : Respelled key doc doc
  | whole {n : Number} (known : key ∈ wholeKeys) (whole : Whole n) : Respelled key (.number n) (.text n.text)
  | real {n : Number} (known : key ∈ realKeys) (ranged : Ranged n) : Respelled key (.number n) (.text n.text)

-- Annotations, some of them by texts in place of numbers.
abbrev AllRespelled : List (String × Json) → List (String × Json) → Prop :=
  List.Forall₂ fun a b => b.1 = a.1 ∧ Respelled a.1 a.2 b.2

theorem keys_apart : ∀ key ∈ wholeKeys, key ∉ realKeys := by decide

variable {n : Number} {as bs : List (String × Json)} {key : String}

theorem trim_text (n : Number) : String.ofList (Text.trim n.text.toList) = n.text := by
  cases n
  case int i   => exact (Text.signed_toString i).trim
  case float x => exact Text.trim_decimal x

theorem int?_text_of_whole (h : Whole n) : int? (.text n.text) = int? (.number n) := by
  rw [int?, trim_text]
  cases n
  case int i   => exact (Text.readInt?_toString i).trans (if_neg (not_lt.mpr h))
  case float x => exact (Text.readInt?_decimal x).trans (Eq.symm h)

-- The text of any other number is refused, though the number is read.
theorem int?_text_of_not_whole (h : ¬Whole n) : (int? (.number n)).isSome ∧ int? (.text n.text) = none := by
  rw [int?.eq_def (.text n.text)]
  simp only [trim_text]
  cases n
  case int i   => exact ⟨rfl, (Text.readInt?_toString i).trans (if_pos (not_le.mp h))⟩
  case float x => exact ⟨Option.isSome_iff_ne_none.mpr h, Text.readInt?_decimal x⟩

-- The double that a value stands for: the nearest to a number, or the one of a text.
def real? : Json → Option Float
  | .number n => n.toFloat?
  | .text s   => Text.readFloat? (String.ofList (Text.trim s.toList))
  | _         => none

theorem real?_text (h : Ranged n) : real? (.text n.text) = real? (.number n) := by
  simp only [real?, trim_text]
  cases n
  case int i =>
    obtain ⟨x, hx⟩ := Option.isSome_iff_exists.mp h
    have nearest : Binary64.ofRatio (i < 0) i.natAbs 1 = x := by
      simp only [Binary64.ofInt?, Option.ite_none_right_eq_some, Option.some.injEq] at hx
      exact hx.2
    exact (Text.readFloat?_toString i).trans ((congrArg some nearest).trans hx.symm)
  case float x => exact Text.readFloat?_decimal h

-- An integer beyond the range of doubles is refused, though its text is read.
theorem real?_text_of_not_ranged {i : Int} (h : ¬Ranged (.int i)) :
    real? (.number (.int i)) = none ∧ (real? (.text (toString i))).isSome := by
  refine ⟨Option.not_isSome_iff_eq_none.mp h, ?_⟩
  rw [real?, (Text.signed_toString i).trim, Text.readFloat?_toString]
  rfl

section Reading

theorem get?_respelled (h : AllRespelled as bs) (key : String) :
    Option.Rel (Respelled key) (Assoc.get? as key) (Assoc.get? bs key) := by
  induction h
  case nil => exact .none
  case cons a b as bs hab _ hi =>
    obtain ⟨a, doc⟩ := a
    obtain ⟨b, doc'⟩ := b
    obtain ⟨name, respelled⟩ := hab
    obtain rfl : b = a := name
    by_cases found : b = key
    case pos =>
      subst found
      simpa [Assoc.get?] using Option.Rel.some respelled
    case neg => simpa [Assoc.get?, found] using hi

theorem value?_respelled (h : AllRespelled as bs) (key : String) :
    Option.Rel (Respelled key) (value? as key) (value? bs key) := by
  have found := get?_respelled h key
  rw [value?, value?]
  generalize Assoc.get? as key = a, Assoc.get? bs key = b at found
  cases found
  case none => exact .none
  case some respelled =>
    cases respelled
    case same =>
      split
      · exact .none
      · exact .some (.same _)
    case whole known whole => exact .some (.whole known whole)
    case real known ranged => exact .some (.real known ranged)

theorem toOption_readInt (as : List (String × Json)) (key : String) :
    (readInt as key).toOption = (value? as key).elim (some none) fun doc => (int? doc).map some := by
  rw [readInt]
  cases value? as key
  case none     => rfl
  case some doc => cases h : int? doc <;> simp [h, Except.toOption]

theorem toOption_readFloat (as : List (String × Json)) (key : String) :
    (readFloat as key).toOption = (value? as key).elim (some none) fun doc => (real? doc).map some := by
  rw [readFloat]
  cases value? as key
  case none     => rfl
  case some doc =>
    cases doc
    case number n => cases h : n.toFloat? <;> simp [h, real?, Except.toOption]
    case text s   =>
      cases h : Text.readFloat? (String.ofList (Text.trim s.toList)) <;> simp [h, real?, Except.toOption]
    all_goals rfl

theorem readInt_respelled (h : AllRespelled as bs) (known : key ∈ wholeKeys) :
    (readInt bs key).toOption = (readInt as key).toOption := by
  have found := value?_respelled h key
  rw [toOption_readInt, toOption_readInt]
  generalize value? as key = a, value? bs key = b at found
  cases found
  case none           => rfl
  case some respelled =>
    cases respelled
    case same          => rfl
    case whole _ whole => simp [int?_text_of_whole whole]
    case real other _  => exact absurd other (keys_apart key known)

theorem readInt_refused (found : value? as key = some (.text n.text)) (h : ¬Whole n) :
    (readInt as key).toOption = none := by
  rw [toOption_readInt, found, Option.elim_some, (int?_text_of_not_whole h).2, Option.map_none]

theorem readFloat_respelled (h : AllRespelled as bs) (known : key ∈ realKeys) :
    (readFloat bs key).toOption = (readFloat as key).toOption := by
  have found := value?_respelled h key
  rw [toOption_readFloat, toOption_readFloat]
  generalize value? as key = a, value? bs key = b at found
  cases found
  case none           => rfl
  case some respelled =>
    cases respelled
    case same          => rfl
    case whole other _ => exact absurd known (keys_apart key other)
    case real _ ranged => simp [real?_text ranged]

theorem readText_respelled (h : AllRespelled as bs) (whole : key ∉ wholeKeys) (real : key ∉ realKeys) :
    readText bs key = readText as key := by
  have found := value?_respelled h key
  rw [readText, readText]
  generalize value? as key = a, value? bs key = b at found
  cases found
  case none           => rfl
  case some respelled =>
    cases respelled
    case same          => rfl
    case whole other _ => exact absurd other whole
    case real other _  => exact absurd other real

end Reading

end Annotations

open Annotations Checks

section Settings

variable {s : Specification} {annotations : List (String × Json)}

theorem TuningSettings.ofSystem_respelled (h : AllRespelled s.annotations annotations) :
    (ofSystem { s with annotations }).toOption = (ofSystem s).toOption := by
  have whole {key : String} (known : key ∈ wholeKeys) := readInt_respelled h known
  have real {key : String} (known : key ∈ realKeys) := readFloat_respelled h known
  have target : readText annotations "generate" = readText s.annotations "generate" :=
    readText_respelled h (by decide) (by decide)
  simp only [ofSystem, toOption_bind, target, whole (by decide : "lowerBound" ∈ wholeKeys),
    whole (by decide : "upperBound" ∈ wholeKeys), whole (by decide : "maxiter" ∈ wholeKeys),
    real (by decide : "precision" ∈ realKeys), real (by decide : "expectedSize" ∈ realKeys)]

theorem SamplerSettings.ofSystem_respelled (h : AllRespelled s.annotations annotations) :
    (ofSystem { s with annotations }).toOption = (ofSystem s).toOption := by
  have whole {key : String} (known : key ∈ wholeKeys) := readInt_respelled h known
  have text {key : String} (whole : key ∉ wholeKeys) (real : key ∉ realKeys) := readText_respelled h whole real
  simp only [ofSystem, toOption_bind, text (by decide : "generate" ∉ wholeKeys) (by decide),
    text (by decide : "module" ∉ wholeKeys) (by decide), whole (by decide : "samples" ∈ wholeKeys),
    whole (by decide : "lowerBound" ∈ wholeKeys), whole (by decide : "upperBound" ∈ wholeKeys),
    whole (by decide : "seed" ∈ wholeKeys)]

-- No other number may be replaced: its text is refused.
theorem TuningSettings.ofSystem_refused {key : String} {n : Number}
    (known : key ∈ ["lowerBound", "upperBound", "maxiter"]) (found : value? s.annotations key = some (.text n.text))
    (h : ¬Whole n) : (ofSystem s).toOption = none := by
  have refused := readInt_refused found h
  simp only [List.mem_cons, List.not_mem_nil, or_false] at known
  obtain rfl | rfl | rfl := known
  all_goals simp [ofSystem, toOption_bind, refused]

theorem SamplerSettings.ofSystem_refused {key : String} {n : Number}
    (known : key ∈ ["samples", "lowerBound", "upperBound", "seed"]) (found : value? s.annotations key = some (.text n.text))
    (h : ¬Whole n) : (ofSystem s).toOption = none := by
  have refused := readInt_refused found h
  simp only [List.mem_cons, List.not_mem_nil, or_false] at known
  obtain rfl | rfl | rfl | rfl := known
  all_goals simp [ofSystem, toOption_bind, refused]

end Settings

end BoltzmannSampling
