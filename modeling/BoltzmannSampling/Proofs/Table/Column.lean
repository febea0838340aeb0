import Mathlib
import BoltzmannSampling.Proofs.Checks
import BoltzmannSampling.Proofs.Correspondence
import BoltzmannSampling.Proofs.Number.Equality
import BoltzmannSampling.Table.Column

/-!
Columns of doubles. The texts of doubles are never those of integers, so that a column of them is one of decimals; it
is read back if each of its texts is. A column of empty cells holds nothing.
-/

namespace BoltzmannSampling

namespace Column

-- The text of a double is read as the double.
def Keeps (x : Float) : Prop := nearest? (Decimal.text x) = some x

-- Behind its sign an integer has nothing but digits.
theorem isInteger_numeral? {cell : String} {n : Numeral} (h : numeral? cell = some n) (integer : n.isInteger) :
    ∀ c ∈ (Text.splitSign (Text.trimBy Text.isPlainBlank cell.toList)).2, c.isDigit := by
  simp only [numeral?] at h
  generalize Text.splitSign (Text.trimBy Text.isPlainBlank cell.toList) = signed at h ⊢
  obtain ⟨negative, body⟩ := signed
  generalize hd : digitRun body = run at h
  obtain ⟨whole, rest⟩ := run
  cases rest
  case nil => exact List.dropWhile_eq_nil_iff.mp (congrArg Prod.snd hd)
  case cons c rest =>
    exfalso
    by_cases point : c = '.'
    case pos =>
      subst point
      generalize digitRun rest = run at h
      obtain ⟨fraction, rest⟩ := run
      simp only [Bool.not_true] at h
      split at h
      case isTrue  => cases h
      case isFalse =>
        split at h
        case h_1 =>
          cases h
          cases integer
        case h_2 =>
          split at h
          case isFalse => cases h
          case isTrue  =>
            obtain ⟨_, _, rfl⟩ := Option.map_eq_some_iff.mp h
            cases integer
    case neg =>
      simp [point] at h
      obtain ⟨_, _, _, _, rfl⟩ := h
      cases integer

-- A character that occurs in no integer.
structure Foreign (c : Char) : Prop where
  digit : c.isDigit = false
  blank : Text.isPlainBlank c = false
  minus : c ≠ '-'
  plus  : c ≠ '+'

theorem mem_dropWhile {p : Char → Bool} {cs : List Char} {c : Char} (h : c ∈ cs) (other : p c = false) :
    c ∈ cs.dropWhile p := by
  rw [← List.takeWhile_append_dropWhile (p := p) (l := cs), List.mem_append] at h
  exact h.resolve_left fun h => by simpa [other] using List.mem_takeWhile_imp h

theorem Foreign.mem_body {c : Char} {cs : List Char} (h : Foreign c) (hc : c ∈ cs) :
    c ∈ (Text.splitSign (Text.trimBy Text.isPlainBlank cs)).2 := by
  have trimmed : c ∈ Text.trimBy Text.isPlainBlank cs := by
    rw [Text.trimBy, List.mem_reverse]
    exact mem_dropWhile (List.mem_reverse.mpr <| mem_dropWhile hc h.blank) h.blank
  generalize Text.trimBy Text.isPlainBlank cs = cs at trimmed
  rw [Text.splitSign.eq_def]
  split
  case h_1 => exact (List.mem_cons.mp trimmed).resolve_left h.minus
  case h_2 => exact (List.mem_cons.mp trimmed).resolve_left h.plus
  case h_3 => exact trimmed

theorem Foreign.int?_eq_none {c : Char} {cell : String} (h : Foreign c) (hc : c ∈ cell.toList) : int? cell = none := by
  simp only [int?]
  split
  case h_2 => rfl
  case h_1 hn =>
    have digit := isInteger_numeral? hn rfl c (h.mem_body hc)
    rw [h.digit] at digit
    cases digit

theorem layout_point (digits : List Char) (lead : Int) :
    '.' ∈ NumeralStyle.shortest.layout digits lead ∨ 'e' ∈ NumeralStyle.shortest.layout digits lead := by
  rw [NumeralStyle.layout]
  split
  case isFalse => exact .inr (by simp [Decimal.scientificText])
  case isTrue  =>
    left
    simp only [Decimal.positionalText]
    split_ifs <;> simp [NumeralStyle.shortest] at *

-- The text of a double has a point, an exponent or letters.
theorem int?_text (x : Float) : int? (Decimal.text x) = none := by
  have point : Foreign '.' := ⟨by decide, by decide, by decide, by decide⟩
  have exponent : Foreign 'e' := ⟨by decide, by decide, by decide, by decide⟩
  have letter : Foreign 'n' := ⟨by decide, by decide, by decide, by decide⟩
  have laid (negative : Bool) {body : List Char} (h : '.' ∈ body ∨ 'e' ∈ body) :
      int? (String.ofList (if negative then '-' :: body else body)) = none := by
    have mem {c : Char} (hc : c ∈ body) : c ∈ (String.ofList (if negative then '-' :: body else body)).toList := by
      cases negative <;> simp [hc]
    exact h.elim (fun h => point.int?_eq_none (mem h)) fun h => exponent.int?_eq_none (mem h)
  rw [Decimal.text]
  split
  case h_1 =>
    refine letter.int?_eq_none ?_
    simp only [Decimal.nonFinite]
    split_ifs <;> decide
  case h_2 b _ =>
    apply laid
    split
    · exact layout_point ..
    · exact layout_point ..

variable {xs : List Float}

theorem mapM_eq_none {α β : Type} {f : α → Option β} {xs : List α} {x : α} (hx : x ∈ xs) (h : f x = none) :
    xs.mapM f = none := by
  cases hs : xs.mapM f
  case none    => rfl
  case some ys =>
    have ⟨_, _, hy⟩ := List.Forall₂.exists_right (Checks.mapM_eq_some.mp hs) hx
    cases h.symm.trans hy

theorem integers?_eq_none {column : List String} {cell : String} (hc : cell ∈ column) (h : int? cell = none) :
    integers? column = none := by
  rw [integers?, mapM_eq_none hc h]

-- Every cell of a column has its number, or none.
theorem length_cells (column : List String) : (cells column).length = column.length := by
  have read {β : Type} {f : String → Option β} {ys : List β} (h : column.mapM f = some ys) : ys.length = column.length :=
    (Checks.mapM_eq_some.mp h).length_eq.symm
  have integers {ys : List Cell} (h : integers? column = some ys) : ys.length = column.length := by
    rw [integers?] at h
    split at h
    case h_2 => cases h
    case h_1 is hm =>
      split at h
      · exact Option.some.inj h ▸ (List.length_map _).trans (read hm)
      · split at h <;> cases h
        exact (List.length_map _).trans (read hm)
  have decimals {ys : List Cell} (h : decimals? column = some ys) : ys.length = column.length := by
    rw [decimals?] at h
    split at h
    · cases h
    · have ⟨xs, hx, he⟩ := Option.map_eq_some_iff.mp h
      rw [← he, List.length_map, read hx]
  rw [cells]
  split
  case h_1 h => rw [List.length_map, integers h]
  case h_2 =>
    split
    case h_1 h => rw [List.length_map, decimals h]
    case h_2 =>
      split
      case h_1 h => rw [List.length_map, read h]
      case h_2   => rw [List.length_map]

theorem cells_texts (nonempty : xs ≠ []) (keeps : ∀ x ∈ xs, Keeps x) :
    cells (xs.map Decimal.text) = xs.map fun x => some (.float x) := by
  obtain ⟨x, hx⟩ := List.exists_mem_of_ne_nil xs nonempty
  have hm : Decimal.text x ∈ xs.map Decimal.text := List.mem_map_of_mem hx
  have decimals : decimals? (xs.map Decimal.text) = some (xs.map .float) := by
    have some : ((xs.map Decimal.text).all fun cell => (int? cell).isSome) = false := by
      rw [List.all_eq_false]
      exact ⟨_, hm, by simp [int?_text]⟩
    have read : (xs.map Decimal.text).mapM nearest? = .some xs :=
      Checks.mapM_eq_some.mpr <| List.forall₂_map_left_iff.mpr <| List.forall₂_same.mpr keeps
    simp [decimals?, some, read]
  rw [cells, integers?_eq_none hm (int?_text x), decimals]
  simp

theorem cells_blank {column : List String} (nonempty : column ≠ []) (blank : ∀ cell ∈ column, cell = "") :
    cells column = column.map fun _ => none := by
  obtain ⟨cell, hm⟩ := List.exists_mem_of_ne_nil column nonempty
  obtain rfl := blank cell hm
  have int : int? "" = none := by decide
  have nearest : nearest? "" = none := by decide
  have truth : truth? "" = none := by decide
  have approximate : approximate? "" = none := by decide
  have decimals : decimals? column = none := by
    have some : (column.all fun cell => (int? cell).isSome) = false := by
      rw [List.all_eq_false]
      exact ⟨_, hm, by simp [int]⟩
    simp [decimals?, some, mapM_eq_none hm nearest]
  rw [cells, integers?_eq_none hm int, decimals, mapM_eq_none hm truth]
  exact List.map_congr_left fun cell hc => by rw [blank cell hc, approximate]; rfl

theorem distinct_replicate {c : Cell} (self : c.number.same c.number) (n : Nat) :
    distinct (List.replicate (n + 1) c) = [c] := by
  induction n
  case zero => rfl
  case succ n hi => rw [List.replicate_succ, distinct, hi]; simp [self]

theorem single?_text {x : Float} (name : String) (finite : x.isFinite) (keeps : Keeps x) (n : Nat) :
    single? name (List.replicate (n + 1) (Decimal.text x)) = .ok (some x) := by
  have found : cells (List.replicate (n + 1) (Decimal.text x)) = List.replicate (n + 1) (some (.float x)) := by
    have texts := @cells_texts (List.replicate (n + 1) x) (by simp) fun y hy => List.eq_of_mem_replicate hy ▸ keeps
    simpa using texts
  have self : (Cell.float x).number.same (Cell.float x).number := Number.same_self (Number.not_isNaN finite)
  have present : (List.replicate (n + 1) (some (Cell.float x))).filterMap id = List.replicate (n + 1) (.float x) :=
    List.filterMap_replicate_of_some rfl
  rw [single?, found, present, distinct_replicate self]
  rfl

end Column

end BoltzmannSampling
