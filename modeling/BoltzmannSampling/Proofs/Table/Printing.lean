import Mathlib
import BoltzmannSampling.Proofs.Text.Quoted
import BoltzmannSampling.Table.Printer
import BoltzmannSampling.Table.Reader

/-!
Tables that are printed are read back: a table of at least two columns, all of whose rows are as wide as its header.
-/

namespace BoltzmannSampling

namespace Table

namespace Scan

variable {fields : List String} {records : List (List String)} {c : Char} {spot : Spot}

theorem step_plain (hs : spot = .start ∨ spot = .plain) (plain : isSpecial c = false) (found : List Char) :
    step ⟨spot, found, fields, records⟩ c = ⟨.plain, c :: found, fields, records⟩ := by
  simp only [isSpecial, Bool.or_eq_false_iff, beq_eq_false_iff_ne] at plain
  rcases hs with rfl | rfl <;> simp [step, unquoted, push, plain]

theorem foldl_plain (cs : List Char) (plain : ∀ c ∈ cs, isSpecial c = false) (found : List Char) :
    cs.foldl step ⟨.plain, found, fields, records⟩ = ⟨.plain, cs.reverse ++ found, fields, records⟩ := by
  induction cs generalizing found
  case nil => rfl
  case cons c cs hi =>
    have ⟨hc, plain⟩ := List.forall_mem_cons.mp plain
    rw [List.foldl_cons, step_plain (.inr rfl) hc, hi plain]
    simp

theorem foldl_quoted (cs : List Char) (found : List Char) :
    (cs.flatMap fun c => if c = Text.doubleQuote then [c, c] else [c]).foldl step ⟨.quoted, found, fields, records⟩ =
      ⟨.quoted, cs.reverse ++ found, fields, records⟩ := by
  induction cs generalizing found
  case nil => rfl
  case cons c cs hi =>
    have one : (if c = Text.doubleQuote then [c, c] else [c]).foldl step ⟨.quoted, found, fields, records⟩ =
        ⟨.quoted, c :: found, fields, records⟩ := by
      split
      case isTrue h  => simp [step, h, push]
      case isFalse h => simp [step, h, push]
    rw [List.flatMap_cons, List.foldl_append, one, hi]
    simp

-- A field that has been read, up to what ends it.
theorem foldl_encode (field : String) : ∃ spot, spot ≠ .quoted ∧
    (encode field).toList.foldl step ⟨.start, [], fields, records⟩ = ⟨spot, field.toList.reverse, fields, records⟩ := by
  simp only [encode]
  split
  case isTrue =>
    have opens : step ⟨.start, [], fields, records⟩ Text.doubleQuote = ⟨.quoted, [], fields, records⟩ := rfl
    refine ⟨.closed, by decide, ?_⟩
    rw [String.toList_ofList, List.cons_append, List.foldl_cons, opens, List.foldl_append, foldl_quoted]
    simp [step]
  case isFalse h =>
    have plain : ∀ c ∈ field.toList, isSpecial c = false := by simpa using h
    cases hf : field.toList
    case nil => exact ⟨.start, by decide, rfl⟩
    case cons c cs =>
      have ⟨hc, plain⟩ := List.forall_mem_cons.mp (hf ▸ plain)
      refine ⟨.plain, by decide, ?_⟩
      rw [List.foldl_cons, step_plain (.inl rfl) hc, foldl_plain cs plain, List.reverse_cons]

theorem step_comma (hs : spot ≠ .quoted) (found : List Char) :
    step ⟨spot, found, fields, records⟩ ',' = ⟨.start, [], String.ofList found.reverse :: fields, records⟩ := by
  cases spot <;> first | exact absurd rfl hs | rfl

theorem step_newline (hs : spot ≠ .quoted) (found : List Char) (more : fields ≠ []) :
    step ⟨spot, found, fields, records⟩ '\n' =
      ⟨.start, [], [], (String.ofList found.reverse :: fields).reverse :: records⟩ := by
  have present : fields.isEmpty = false := by simpa using more
  have other : '\n' ≠ Text.doubleQuote := by decide
  cases spot <;> first | exact absurd rfl hs | simp [step, unquoted, endRecord, isBlank, present, endField, other]

-- The fields of a record, up to the end of its line.
theorem foldl_joined {row : List String} (nonempty : row ≠ []) (more : fields ≠ [] ∨ 2 ≤ row.length) :
    (Text.joined "," (row.map encode) ++ "\n").toList.foldl step ⟨.start, [], fields, records⟩ =
      ⟨.start, [], [], (fields.reverse ++ row) :: records⟩ := by
  induction row generalizing fields
  case nil => exact absurd rfl nonempty
  case cons field row hi =>
    have ⟨spot, hs, he⟩ := @foldl_encode fields records field
    cases row
    case nil =>
      have more : fields ≠ [] := more.resolve_right (by simp)
      rw [List.map_singleton, Text.joined_singleton, String.toList_append, List.foldl_append, he]
      change step _ '\n' = _
      rw [step_newline hs _ more]
      simp
    case cons next row =>
      have hi := @hi (field :: fields) (List.cons_ne_nil _ _) (.inl (List.cons_ne_nil _ _))
      rw [String.toList_append, List.foldl_append] at hi ⊢
      simp only [List.map_cons] at hi ⊢
      rw [Text.toList_joined, List.foldl_append, he, List.foldl_append]
      change List.foldl step (List.foldl step (step _ ',') _) _ = _
      rw [step_comma hs, List.reverse_reverse, String.ofList_toList, hi]
      simp

theorem foldl_records (rows : List (List String)) (wide : ∀ row ∈ rows, 2 ≤ row.length) :
    (String.join (rows.map record)).toList.foldl step ⟨.start, [], [], records⟩ =
      ⟨.start, [], [], rows.reverse ++ records⟩ := by
  induction rows generalizing records
  case nil => rfl
  case cons row rows hi =>
    have ⟨hw, wide⟩ := List.forall_mem_cons.mp wide
    have one := @foldl_joined [] records row (List.length_pos_iff.mp (Nat.zero_lt_of_lt hw)) (.inr hw)
    have join : String.join ((row :: rows).map record) = record row ++ String.join (rows.map record) := by simp
    rw [join, String.toList_append, List.foldl_append, record, one, hi wide]
    simp

end Scan

-- A table all of whose rows are as wide as its header, which names two columns at least.
structure Regular (t : Table) : Prop where
  wide : 2 ≤ t.header.length
  rows : ∀ row ∈ t.rows, row.length = t.header.length
  mark : t.print.toList.head? ≠ some byteOrderMark

theorem read?_print {t : Table} (h : t.Regular) : read? t.print = some t := by
  obtain ⟨wide, rows, mark⟩ := h
  have all : ∀ row ∈ t.header :: t.rows, 2 ≤ row.length :=
    List.forall_mem_cons.mpr ⟨wide, fun row hr => (rows row hr).symm ▸ wide⟩
  have records : records? t.print.toList = some (t.header :: t.rows) := by
    have scan := @Scan.foldl_records [] _ all
    rw [records?, Scan.begin, print, ← List.map_cons, scan]
    simp [Scan.finish, Scan.endRecord, Scan.isBlank]
  have width : max t.header.length ((t.rows.head?.map List.length).getD 0) = t.header.length := by
    cases hr : t.rows
    case nil => simp
    case cons row _ => simp [rows row (hr ▸ List.mem_cons_self)]
  have short : (t.rows.any fun row => decide (t.header.length < row.length)) = false := by
    simp only [List.any_eq_false, decide_eq_true_eq]
    exact fun row hr => (rows row hr).not_gt
  have padded : t.rows.map (fun row => (pad t.header.length row).drop (t.header.length - t.header.length)) = t.rows := by
    refine (List.map_congr_left fun row hr => ?_).trans (List.map_id _)
    simp [pad, rows row hr]
  simp only [read?, if_neg mark, records, ofRecords, width, short, padded]
  rfl

end Table

end BoltzmannSampling
