import Mathlib
import BoltzmannSampling.Json.Printer
import BoltzmannSampling.Json.Reader

/-!
Numbers in documents. A number begins with a digit, a minus or the name of infinity, and ends before a comma or at
the end of its line. Every integer is read back from its digits.
-/

namespace BoltzmannSampling

namespace Json

open Reader

-- What follows a number in a printed document: a comma or the end of a line.
def Stops : List Char → Prop
  | c :: _ => c = ',' ∨ c = '\n'
  | []     => False

-- The reader takes a number from its text.
def ReadsBack (n : Number) : Prop :=
  ∀ rest, Stops rest → number? ((Printer.number n).toList ++ rest) = some (n, rest)

-- A number without a fraction or an exponent ends where its digits do.
theorem Stops.ends {rest : List Char} (stops : Stops rest) :
    (∀ c ∈ rest.head?, ¬Reader.isDigit c) ∧ fraction rest = ([], rest) ∧ exponent rest = (none, rest) := by
  cases rest
  case nil         => exact stops.elim
  case cons c rest =>
    obtain rfl | rfl := stops
    · exact ⟨fun c hc => Option.some.inj hc ▸ by decide, rfl, rfl⟩
    · exact ⟨fun c hc => Option.some.inj hc ▸ by decide, rfl, rfl⟩

namespace Reader

variable {cs rest : List Char}

theorem whole?_head {c : Char} (digit : ¬Reader.isDigit c) : whole? (c :: cs) = none := by
  have zero : c ≠ '0' := by
    rintro rfl
    exact digit (by decide)
  simp [whole?, zero, digit]

theorem after?_head {c w : Char} (h : w ≠ c) (ws : List Char) : after? (w :: ws) (c :: cs) = none := by
  rw [after?, if_neg (by simpa using h)]

theorem number?_head {c : Char} (minus : c ≠ '-') (infinite : c ≠ 'I') (digit : ¬Reader.isDigit c) :
    number? (c :: cs) = none := by
  have name : "Infinity".toList = 'I' :: "nfinity".toList := by decide
  simp [number?, minus, name, after?_head infinite.symm, whole?_head digit]

theorem isDigit_of_mem {n : Nat} : ∀ c ∈ Nat.toDigits 10 n, Reader.isDigit c := by
  intro c hc
  have digit := Nat.isDigit_of_mem_toDigits (by decide) (by decide) hc
  simpa [Reader.isDigit, Char.isDigit, Char.le_def] using digit

-- Only zero begins with a zero.
theorem toDigits_head {n : Nat} {cs : List Char} (h : Nat.toDigits 10 n = '0' :: cs) : n = 0 := by
  induction n using Nat.strongRecOn generalizing cs
  case ind n hi =>
    rw [Nat.toDigits_eq_if (by decide)] at h
    split at h
    case isTrue small =>
      have digit : n.digitChar = '0' := (List.cons.inj h).1
      have zero : ∀ m < 10, m.digitChar = '0' → m = 0 := by decide
      exact zero n small digit
    case isFalse large =>
      obtain ⟨c, ds, hd⟩ := List.exists_cons_of_ne_nil (Nat.toDigits_ne_nil (n := n / 10) (b := 10))
      rw [hd, List.cons_append] at h
      have := hi (n / 10) (by omega) (hd.trans (congrArg (· :: ds) (List.cons.inj h).1))
      omega

theorem takeWhile_digits {digits : List Char} (all : ∀ c ∈ digits, Reader.isDigit c)
    (stops : ∀ c ∈ rest.head?, ¬Reader.isDigit c) :
    (digits ++ rest).takeWhile Reader.isDigit = digits ∧ (digits ++ rest).dropWhile Reader.isDigit = rest := by
  rw [List.takeWhile_append_of_pos all, List.dropWhile_append_of_pos all]
  cases rest
  case nil         => exact ⟨List.append_nil _, rfl⟩
  case cons c rest =>
    have stop : ¬Reader.isDigit c := stops c rfl
    simp [stop]

-- The digits of a whole number: one at least, and no zero before others.
def IsWhole (digits : List Char) : Prop :=
  digits = ['0'] ∨ digits ≠ [] ∧ digits.head? ≠ some '0' ∧ digits.all Reader.isDigit

theorem isWhole_toDigits (n : Nat) : IsWhole (Nat.toDigits 10 n) := by
  by_cases zero : n = 0
  case pos => exact .inl (zero ▸ Nat.toDigits_zero 10)
  case neg =>
    refine .inr ⟨Nat.toDigits_ne_nil, fun first => zero ?_, List.all_eq_true.mpr isDigit_of_mem⟩
    obtain ⟨ds, hd⟩ := List.head?_eq_some_iff.mp first
    exact toDigits_head hd

theorem IsWhole.isDigit {digits : List Char} (h : IsWhole digits) : ∀ c ∈ digits, Reader.isDigit c := by
  obtain rfl | ⟨-, -, all⟩ := h
  · exact List.forall_mem_singleton.mpr (by decide)
  · exact List.all_eq_true.mp all

theorem IsWhole.nonempty {digits : List Char} (h : IsWhole digits) : digits ≠ [] := by
  obtain rfl | ⟨nonempty, -, -⟩ := h
  · exact List.cons_ne_nil _ _
  · exact nonempty

-- A number that begins with a digit has no sign and is finite.
theorem IsWhole.unsigned {digits : List Char} (h : IsWhole digits) (rest : List Char) :
    (∀ cs, digits ++ rest ≠ '-' :: cs) ∧ after? "Infinity".toList (digits ++ rest) = none := by
  have name : "Infinity".toList = 'I' :: "nfinity".toList := by decide
  obtain ⟨c, ds, rfl⟩ := List.exists_cons_of_ne_nil h.nonempty
  have digit : Reader.isDigit c := h.isDigit c List.mem_cons_self
  constructor
  · rintro cs ⟨⟩
    exact absurd digit (by decide)
  · rw [List.cons_append, name]
    refine after?_head ?_ _
    rintro rfl
    exact absurd digit (by decide)

theorem whole?_digits {digits : List Char} (h : IsWhole digits) (stops : ∀ c ∈ rest.head?, ¬Reader.isDigit c) :
    whole? (digits ++ rest) = some (digits, rest) := by
  obtain rfl | ⟨nonempty, first, all⟩ := h
  · rfl
  · have ⟨taken, left⟩ := takeWhile_digits (List.all_eq_true.mp all) stops
    obtain ⟨c, ds, rfl⟩ := List.exists_cons_of_ne_nil nonempty
    have first : c ≠ '0' := by simpa using first
    rw [List.cons_append] at taken left ⊢
    simp [whole?, first, taken, left]

-- The value of digits, most significant first.
def valueOf (digits : List Char) : Nat := Text.ofDigits (digits.map fun d => d.toNat - 48)

theorem valueOf_toDigits (n : Nat) : valueOf (Nat.toDigits 10 n) = n := by
  rw [valueOf, Text.ofDigits, List.foldl_map]
  exact Nat.ofDigitChars_ten_toDigits

theorem number?_whole {digits : List Char} (h : IsWhole digits) (stops : Stops rest) :
    number? (digits ++ rest) = some (.int (valueOf digits), rest) ∧
      number? ('-' :: (digits ++ rest)) = some (.int (-(valueOf digits)), rest) := by
  obtain ⟨unsigned, finite⟩ := h.unsigned rest
  obtain ⟨ends, fraction, exponent⟩ := stops.ends
  have whole := whole?_digits h ends
  constructor
  · simp [number?, -String.reduceToList, finite, whole, fraction, exponent, valueOf]
  · simp [number?, -String.reduceToList, finite, whole, fraction, exponent, valueOf]

end Reader

theorem toList_toString (i : Int) :
    (toString i).toList = if i < 0 then '-' :: Nat.toDigits 10 i.natAbs else Nat.toDigits 10 i.natAbs := by
  cases i
  case ofNat n =>
    rw [if_neg (by simp)]
    exact Nat.toList_repr
  case negSucc n =>
    have shown : toString (Int.negSucc n) = "-" ++ (n + 1).repr := rfl
    rw [shown, String.toList_append, Nat.toList_repr, if_pos (Int.negSucc_lt_zero n)]
    rfl

theorem readsBack_int (i : Int) : ReadsBack (.int i) := by
  intro rest stops
  have ⟨natural, negative⟩ := number?_whole (isWhole_toDigits i.natAbs) stops
  rw [valueOf_toDigits] at natural negative
  rw [Printer.number, toList_toString]
  split
  case isTrue below =>
    rw [List.cons_append, negative]
    congr
    omega
  case isFalse =>
    rw [natural]
    congr
    omega

end Json

end BoltzmannSampling
