import Mathlib
import BoltzmannSampling.Proofs.Text.Spelling
import BoltzmannSampling.Text.Numeral

/-!
Numbers that people write. The text of a finite double is read as the double and never as an integer, and the text of
an integer as the integer, unless it is too long, and as the double that is nearest to it.
-/

namespace BoltzmannSampling

open Json.Reader Decimal

namespace Text

variable {cs rest : List Char} {c : Char}

section Digits

theorem isDigit_iff : isDigit c ↔ 48 ≤ c.toNat ∧ c.toNat ≤ 57 := by
  simp [isDigit, Char.le_def, UInt32.le_iff_toNat_le]

theorem digit?_of_isDigit (h : isDigit c) : digit? c = some (c.toNat - 48) := by
  have ⟨least, most⟩ := isDigit_iff.mp h
  rw [digit?, zeroDigits, List.find?_cons_of_pos (by simp; omega)]
  rfl

-- What follows the digits of a numeral.
def Ends (rest : List Char) : Prop := ∀ c ∈ rest.head?, c = '.' ∨ c = 'e'

theorem ends_nil : Ends [] := fun c hc => by cases hc

theorem digitRun_end (found : List Nat) (h : Ends rest) : digitRun found rest = (found.reverse, rest) := by
  cases rest
  case nil         => rfl
  case cons c rest =>
    obtain rfl | rfl := h c rfl
    · rfl
    · rfl

theorem digitRun_append (found : List Nat) (all : ∀ c ∈ cs, isDigit c) (h : Ends rest) :
    digitRun found (cs ++ rest) = (found.reverse ++ cs.map fun d => d.toNat - 48, rest) := by
  induction cs generalizing found
  case nil          => rw [List.nil_append, digitRun_end found h, List.map_nil, List.append_nil]
  case cons d cs hi =>
    have digit : isDigit d := all d List.mem_cons_self
    have other : d ≠ '_' := by
      rintro rfl
      exact absurd digit (by decide)
    rw [List.cons_append, digitRun, digit?_of_isDigit digit]
    · simp [hi ((d.toNat - 48) :: found) fun c hc => all c (List.mem_cons_of_mem _ hc)]
    · simp [other]

end Digits

section Blanks

-- The characters of numerals, none of which is a blank.
def Plain (c : Char) : Prop := isDigit c ∨ c ∈ ['-', '+', '.', 'e']

theorem Plain.not_blank (h : Plain c) : isBlank c = false ∧ isPlainBlank c = false := by
  rcases h with digit | sign
  · have ⟨least, most⟩ := isDigit_iff.mp digit
    have space : c ≠ ' ' := by
      rintro rfl
      exact absurd least (by decide)
    constructor
    · simp only [isBlank, Bool.or_eq_false_iff, Bool.and_eq_false_iff, decide_eq_false_iff_not, beq_eq_false_iff_ne]
      omega
    · simp [isPlainBlank, space]
      omega
  · simp only [List.mem_cons, List.not_mem_nil, or_false] at sign
    obtain rfl | rfl | rfl | rfl := sign
    all_goals exact ⟨rfl, rfl⟩

theorem trimBy_eq_self {blank : Char → Bool} (h : ∀ c ∈ cs, blank c = false) : trimBy blank cs = cs := by
  have keep {cs : List Char} (h : ∀ c ∈ cs, blank c = false) : cs.dropWhile blank = cs := by
    cases cs
    case nil       => rfl
    case cons c cs => rw [List.dropWhile_cons, h c List.mem_cons_self, if_neg Bool.false_ne_true]
  rw [trimBy, keep h, keep fun c hc => h c (List.mem_reverse.mp hc), List.reverse_reverse]

theorem Plain.not_around (h : Plain c) (cs : List Char) : aroundNumeral cs c = false := by
  rw [aroundNumeral]
  split
  · exact h.not_blank.2
  · exact h.not_blank.1

end Blanks

section Signs

-- A sign and plain characters, the first of them a digit.
structure Signed (s : String) (negative : Bool) (body : List Char) : Prop where
  text  : s.toList = if negative then '-' :: body else body
  plain : ∀ c ∈ body, Plain c
  first : ∃ c cs, body = c :: cs ∧ isDigit c

variable {s : String} {negative : Bool} {body : List Char}

theorem Signed.plain_toList (h : Signed s negative body) : ∀ c ∈ s.toList, Plain c := by
  rw [h.text]
  split
  case isTrue  => exact List.forall_mem_cons.mpr ⟨.inr (by decide), h.plain⟩
  case isFalse => exact h.plain

theorem Signed.trimBy {blank : Char → Bool} (h : Signed s negative body) (plain : ∀ c, Plain c → blank c = false) :
    trimBy blank s.toList = s.toList :=
  trimBy_eq_self fun c hc => plain c (h.plain_toList c hc)

theorem Signed.trim (h : Signed s negative body) : String.ofList (trim s.toList) = s := by
  rw [Text.trim, h.trimBy fun c hc => hc.not_blank.1, String.ofList_toList]

theorem Signed.split (h : Signed s negative body) : splitSign s.toList = (negative, body) := by
  rw [h.text]
  cases negative
  case true  => rfl
  case false =>
    obtain ⟨c, cs, rfl, digit⟩ := h.first
    have minus : c ≠ '-' := by
      rintro rfl
      exact absurd digit (by decide)
    have plus : c ≠ '+' := by
      rintro rfl
      exact absurd digit (by decide)
    simp [splitSign, minus, plus]

theorem Signed.split_trimmed (h : Signed s negative body) :
    splitSign (Text.trimBy (aroundNumeral s.toList) s.toList) = (negative, body) := by
  rw [h.trimBy fun c hc => hc.not_around s.toList, h.split]

-- Digits have no other case, so that a text that begins with one is not a name.
theorem nameOf_ne {name : String} (digit : isDigit c) (letter : ∀ d ∈ name.toList.head?, d = 'i' ∨ d = 'n') :
    nameOf (c :: cs) ≠ name := by
  have ⟨least, most⟩ := isDigit_iff.mp digit
  have lower : c.toLower = c := by
    rw [Char.toLower, dif_neg]
    exact fun upper => absurd (UInt32.le_iff_toNat_le.mp upper.1) (not_le.mpr (Nat.lt_of_le_of_lt most (by decide)))
  rintro rfl
  have name : (nameOf (c :: cs)).toList = c :: cs.map Char.toLower := by
    rw [nameOf, String.toList_ofList, List.map_cons, lower]
  rw [name] at letter
  obtain rfl | rfl := letter c rfl
  · exact absurd most (by decide)
  · exact absurd most (by decide)

theorem Signed.unnamed (h : Signed s negative body) :
    nameOf body ≠ "inf" ∧ nameOf body ≠ "infinity" ∧ nameOf body ≠ "nan" := by
  obtain ⟨c, cs, rfl, digit⟩ := h.first
  exact ⟨nameOf_ne digit (by simp), nameOf_ne digit (by simp), nameOf_ne digit (by simp)⟩

theorem Signed.readFloat? (h : Signed s negative body) : readFloat? s = decimal? negative body := by
  obtain ⟨inf, infinity, nan⟩ := h.unnamed
  simp only [Text.readFloat?, h.split_trimmed, inf, infinity, nan, or_self, if_false]

end Signs

section Decimals

variable {w : Spelling}

theorem ends_tail (w : Spelling) : Ends w.tail := by
  rw [Spelling.tail]
  split
  · exact fun c hc => by cases hc
  · exact fun c hc => .inr (Option.some.inj hc).symm

theorem ends_fraction (w : Spelling) : Ends (w.fraction ++ w.tail) := by
  rw [Spelling.fraction]
  split
  · exact ends_tail w
  · exact fun c hc => .inl (Option.some.inj hc).symm

theorem exponent?_tail (w : Spelling) : exponent? w.tail = some (w.exponent.getD 0) := by
  rw [Spelling.tail]
  split
  case h_1 none   => rw [none]; rfl
  case h_2 e some =>
    obtain ⟨digits, shown, nonempty, all, value⟩ := exists_exponentText e
    have sign := splitSign_exponent shown []
    have run := digitRun_append [] all ends_nil
    simp only [List.append_nil] at run sign
    obtain ⟨d, ds, rfl⟩ := List.exists_cons_of_ne_nil nonempty
    rw [valueOf] at value
    simp only [exponent?, sign, run, some, List.reverse_nil, List.nil_append, List.map_cons] at value ⊢
    rw [value, if_pos (.inl trivial), Option.getD_some, signed_natAbs]

theorem decimal?_of_digits {body : List Char} {whole : List Nat} {e : Int} {negative : Bool}
    (run : digitRun [] body = (whole, rest)) (nonempty : whole ≠ []) (point : ∀ cs, rest ≠ '.' :: cs)
    (exponent : exponent? rest = some e) :
    decimal? negative body = some (Binary64.ofDecimal negative (ofDigits whole) e) := by
  -- The assumption on the point decides which branch is taken.
  simp [decimal?, run, nonempty, exponent]

theorem decimal?_of_places {body tail : List Char} {whole places : List Nat} {e : Int} {negative : Bool}
    (run : digitRun [] body = (whole, '.' :: rest)) (nonempty : whole ≠ []) (behind : digitRun [] rest = (places, tail))
    (exponent : exponent? tail = some e) :
    decimal? negative body = some (Binary64.ofDecimal negative (ofDigits (whole ++ places)) (e - places.length)) := by
  simp [decimal?, run, behind, nonempty, exponent]

theorem decimal?_text (h : w.Broken) (negative : Bool) :
    decimal? negative w.text = some (Binary64.ofDecimal negative w.decimal.coefficient w.decimal.scale) := by
  have nonempty : (w.whole.map fun d => d.toNat - 48) ≠ [] := mt List.map_eq_nil_iff.mp h.whole.nonempty
  by_cases empty : w.places = []
  case pos =>
    have text : w.text = w.whole ++ w.tail := by simp [Spelling.text, Spelling.fraction, empty]
    have point : ∀ cs, w.tail ≠ '.' :: cs := by
      rw [Spelling.tail]
      split <;> simp
    rw [text, decimal?_of_digits (digitRun_append [] h.whole.isDigit (ends_tail w)) nonempty point (exponent?_tail w)]
    simp [Spelling.decimal, valueOf, empty]
  case neg =>
    have text : w.text = w.whole ++ '.' :: (w.places ++ w.tail) := by simp [Spelling.text, Spelling.fraction, empty]
    have after : w.fraction ++ w.tail = '.' :: (w.places ++ w.tail) := by simp [Spelling.fraction, empty]
    rw [text, decimal?_of_places (digitRun_append [] h.whole.isDigit (after ▸ ends_fraction w)) nonempty
      (digitRun_append [] h.places (ends_tail w)) (exponent?_tail w)]
    simp [Spelling.decimal, valueOf]

theorem signed_text {s : String} (h : w.Broken) {negative : Bool}
    (hs : s.toList = if negative then '-' :: w.text else w.text) : Signed s negative w.text := by
  have digits {cs : List Char} (h : ∀ c ∈ cs, isDigit c) : ∀ c ∈ cs, Plain c := fun c hc => .inl (h c hc)
  have tail : ∀ c ∈ w.tail, Plain c := by
    rw [Spelling.tail]
    split
    case h_1     => exact fun c hc => by cases hc
    case h_2 e _ =>
      obtain ⟨ds, shown, -, all, -⟩ := exists_exponentText e
      rw [shown]
      refine List.forall_mem_cons.mpr ⟨.inr (by decide), List.forall_mem_cons.mpr ⟨.inr ?_, digits all⟩⟩
      split <;> decide
  refine ⟨hs, List.forall_mem_append.mpr ⟨digits h.whole.isDigit, List.forall_mem_append.mpr ⟨?_, tail⟩⟩, ?_⟩
  · rw [Spelling.fraction]
    split
    case isTrue  => exact fun c hc => by cases hc
    case isFalse => exact List.forall_mem_cons.mpr ⟨.inr (by decide), digits h.places⟩
  · obtain ⟨c, cs, hc⟩ := List.exists_cons_of_ne_nil h.whole.nonempty
    exact ⟨c, cs ++ _, congrArg (· ++ _) hc, h.whole.isDigit c (hc ▸ List.mem_cons_self)⟩

-- A numeral with a point or an exponent is no integer.
theorem readInt?_text {s : String} {negative : Bool} (h : w.Broken) (signed : Signed s negative w.text) :
    readInt? s = none := by
  have more : w.fraction ++ w.tail ≠ [] := by
    rcases h.broken with places | exponent
    · simp [Spelling.fraction, places]
    · obtain ⟨e, he⟩ := Option.isSome_iff_exists.mp exponent
      simp [Spelling.tail, he]
  obtain ⟨c, cs, hc⟩ := List.exists_cons_of_ne_nil more
  have run := digitRun_append [] h.whole.isDigit (ends_fraction w)
  rw [hc] at run
  simp only [readInt?, signed.split_trimmed, Spelling.text, hc, run]
  split
  case h_1 h => cases (Prod.mk.inj h).2
  case h_2   => rfl

end Decimals

section Integers

theorem signed_toString (i : Int) : Signed (toString i) (i < 0) (Nat.toDigits 10 i.natAbs) := by
  refine ⟨by simp only [Json.toList_toString, decide_eq_true_eq], fun c hc => .inl (isDigit_of_mem c hc), ?_⟩
  obtain ⟨c, cs, hc⟩ := List.exists_cons_of_ne_nil (Nat.toDigits_ne_nil (n := i.natAbs) (b := 10))
  exact ⟨c, cs, hc, isDigit_of_mem c (hc ▸ List.mem_cons_self)⟩

theorem digitRun_toDigits (n : Nat) :
    digitRun [] (Nat.toDigits 10 n) = ((Nat.toDigits 10 n).map fun d => d.toNat - 48, []) := by
  have run := digitRun_append [] (isDigit_of_mem (n := n)) ends_nil
  rwa [List.append_nil] at run

theorem ofDecimal_nat (negative : Bool) (n : Nat) : Binary64.ofDecimal negative n 0 = Binary64.ofRatio negative n 1 := by
  have one : n * tenTo (Int.toNat 0) = n := Nat.mul_one n
  have most : ¬(400 : Int) < 0 := by decide
  have least : ¬(0 : Int) + ((n.log2 / 3 : Nat) + 1) < -400 := by omega
  simp only [Binary64.ofDecimal, if_neg most, le_refl, if_true, one]
  split
  case isTrue zero => rw [zero]
  case isFalse     => rw [if_neg (by exact_mod_cast least)]

theorem readInt?_toString (i : Int) : readInt? (toString i) =
    if longestInteger < (Nat.toDigits 10 i.natAbs).length then none else some i := by
  have value : ofDigits ((Nat.toDigits 10 i.natAbs).map fun d => d.toNat - 48) = i.natAbs := valueOf_toDigits _
  have run := digitRun_toDigits i.natAbs
  obtain ⟨c, cs, hc⟩ := List.exists_cons_of_ne_nil (Nat.toDigits_ne_nil (n := i.natAbs) (b := 10))
  simp only [readInt?, (signed_toString i).split_trimmed, run]
  rw [hc, List.map_cons] at value ⊢
  simp only [value, List.length_cons, List.length_map, signed_natAbs]

theorem readFloat?_toString (i : Int) : readFloat? (toString i) = some (Binary64.ofRatio (i < 0) i.natAbs 1) := by
  have value : ofDigits ((Nat.toDigits 10 i.natAbs).map fun d => d.toNat - 48) = i.natAbs := valueOf_toDigits _
  rw [(signed_toString i).readFloat?, decimal?_of_digits (digitRun_toDigits _) (by simp) (by simp) rfl, value,
    ofDecimal_nat]

end Integers

section Doubles

variable {x : Float}

theorem exists_signed (finite : x.isFinite = true) : ∃ (negative : Bool) (w : Spelling), w.Broken ∧
    Signed (Decimal.text x) negative w.text ∧
      Binary64.ofDecimal negative w.decimal.coefficient w.decimal.scale = x := by
  obtain ⟨b, hb⟩ := Binary64.exists_ofFloat? finite
  obtain ⟨w, shown, broken, value⟩ := exists_text hb
  exact ⟨b.negative, w, broken, signed_text broken shown, value⟩

-- A finite double is read back from its text.
theorem readFloat?_decimal (finite : x.isFinite = true) : readFloat? (Decimal.text x) = some x := by
  obtain ⟨negative, w, broken, signed, value⟩ := exists_signed finite
  rw [signed.readFloat?, decimal?_text broken, value]

theorem trim_decimal (x : Float) : String.ofList (trim (Decimal.text x).toList) = Decimal.text x := by
  by_cases finite : x.isFinite = true
  case pos =>
    obtain ⟨negative, w, -, signed, -⟩ := exists_signed finite
    exact signed.trim
  case neg => exact (by decide : ∀ s ∈ ["nan", "-inf", "inf"], String.ofList (trim s.toList) = s) _ (text_mem finite)

-- The text of a double is never that of an integer.
theorem readInt?_decimal (x : Float) : readInt? (Decimal.text x) = none := by
  by_cases finite : x.isFinite = true
  case pos =>
    obtain ⟨negative, w, broken, signed, -⟩ := exists_signed finite
    exact readInt?_text broken signed
  case neg => exact (by decide : ∀ s ∈ ["nan", "-inf", "inf"], readInt? s = none) _ (text_mem finite)

end Doubles

end Text

end BoltzmannSampling
