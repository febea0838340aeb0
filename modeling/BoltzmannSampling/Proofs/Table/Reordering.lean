import Mathlib
import BoltzmannSampling.Proofs.Table.Column
import BoltzmannSampling.Table.Reader

/-!
Tables with the same rows in another order. How a cell is read depends on the other cells of its column, but not on
their order. So the rows of a table state the same numbers in any order, and a column that has one positive number
has it in any order.
-/

namespace BoltzmannSampling

variable {α β γ : Type}

theorem mapM_eq_filterMap (f : α → Option β) (xs : List α) :
    xs.mapM f = if xs.all fun x => (f x).isSome then some (xs.filterMap f) else none := by
  induction xs
  case nil => rfl
  case cons x xs hi =>
    rw [List.mapM_cons, hi]
    cases hx : f x
    case none   => simp [hx]
    case some y => cases h : xs.all fun x => (f x).isSome <;> simp [hx, h]

theorem map_filterMap_of_all {f : α → Option β} {xs : List α} (all : xs.all fun x => (f x).isSome) (g : β → γ) :
    (xs.filterMap f).map (some ∘ g) = xs.map fun x => (f x).map g := by
  induction xs
  case nil => rfl
  case cons x xs hi =>
    rw [List.all_cons, Bool.and_eq_true] at all
    obtain ⟨y, hy⟩ := Option.isSome_iff_exists.mp all.1
    simp [hy, hi all.2]

namespace Column

variable {column column' : List String} {c d : Cell} {x : Float}

def isNatural (i : Int) : Bool := 0 ≤ i && i < twoTo 64

-- How the cells of a column are read, all in the same way.
def reading (column : List String) : String → Option Cell :=
  if column.all fun cell => (int? cell).any isSigned then fun cell => (int? cell).map .int
  else if column.all fun cell => (int? cell).any isNatural then fun cell => (int? cell).map fun i => .natural i.toNat
  else if !(column.all fun cell => (int? cell).isSome) && column.all fun cell => (nearest? cell).isSome then
    fun cell => (nearest? cell).map .float
  else if column.all fun cell => (truth? cell).isSome then fun cell => (truth? cell).map .bool
  else fun cell => (approximate? cell).map .float

theorem reading_perm (perm : column'.Perm column) : reading column' = reading column := by
  simp only [reading, perm.all_eq]

theorem all_any {f : String → Option β} (p : β → Bool) :
    (column.all fun cell => (f cell).any p) = (column.all (fun cell => (f cell).isSome) && (column.filterMap f).all p) := by
  induction column
  case nil => rfl
  case cons cell column hi =>
    rw [List.all_cons, List.all_cons, hi, List.filterMap_cons]
    cases f cell
    case none   => rfl
    case some y => simp [Bool.and_left_comm]

theorem integers?_eq (column : List String) : integers? column =
    if column.all fun cell => (int? cell).any isSigned then some ((column.filterMap int?).map .int)
    else if column.all fun cell => (int? cell).any isNatural then
      some ((column.filterMap int?).map fun i => .natural i.toNat)
    else none := by
  rw [integers?, mapM_eq_filterMap, all_any, all_any]
  cases column.all fun cell => (int? cell).isSome
  case true  => rfl
  case false => rfl

theorem decimals?_eq (column : List String) : decimals? column =
    if !(column.all fun cell => (int? cell).isSome) && column.all fun cell => (nearest? cell).isSome then
      some ((column.filterMap nearest?).map .float)
    else none := by
  rw [decimals?, mapM_eq_filterMap]
  cases column.all fun cell => (int? cell).isSome
  case true  => rfl
  case false => cases column.all fun cell => (nearest? cell).isSome <;> rfl

theorem cells_eq (column : List String) : cells column = column.map (reading column) := by
  have whole {p : Int → Bool} (h : column.all fun cell => (int? cell).any p) :
      column.all fun cell => (int? cell).isSome := by
    rw [all_any, Bool.and_eq_true] at h
    exact h.1
  rw [cells, integers?_eq, decimals?_eq, mapM_eq_filterMap, reading]
  by_cases signed : column.all fun cell => (int? cell).any isSigned
  case pos =>
    rw [if_pos signed, if_pos signed]
    exact List.map_map.trans <| map_filterMap_of_all (whole signed) _
  case neg =>
    rw [if_neg signed, if_neg signed]
    by_cases natural : column.all fun cell => (int? cell).any isNatural
    case pos =>
      rw [if_pos natural, if_pos natural]
      exact List.map_map.trans <| map_filterMap_of_all (whole natural) _
    case neg =>
      rw [if_neg natural, if_neg natural]
      split_ifs with decimal truth truth
      · exact List.map_map.trans <| map_filterMap_of_all (Bool.and_eq_true_iff.mp decimal).2 _
      · exact List.map_map.trans <| map_filterMap_of_all (Bool.and_eq_true_iff.mp decimal).2 _
      · exact map_filterMap_of_all truth _
      · rfl

-- A column in another order is read in the same way.
theorem cells_perm (perm : column'.Perm column) : cells column' = column'.map (reading column) := by
  rw [cells_eq, reading_perm perm]

-- Of the numbers in one column only zeros differ and have the same value.
theorem eq_of_same {cell cell' : String} (hd : reading column cell = some d) (hc : reading column cell' = some c)
    (positive : ∀ x, c = .float x → Number.Positive (.float x)) (same : d.number.same c.number) : d = c := by
  rw [reading] at hd hc
  split_ifs at hd hc
  all_goals
    obtain ⟨a, -, rfl⟩ := Option.map_eq_some_iff.mp hd
    obtain ⟨b, -, rfl⟩ := Option.map_eq_some_iff.mp hc
  · exact congrArg Cell.int (Number.same_int.mp same)
  · exact congrArg Cell.natural (Int.ofNat.inj (Number.same_int.mp same))
  · exact congrArg Cell.float (Number.eq_of_same_positive (positive b rfl) same)
  · have equal := Number.same_int.mp same
    cases a <;> cases b <;> simp_all
  · exact congrArg Cell.float (Number.eq_of_same_positive (positive b rfl) same)

theorem same_number {cell : String} (hc : reading column cell = some c)
    (positive : ∀ x, c = .float x → Number.Positive (.float x)) : c.number.same c.number := by
  cases c
  case int | natural | bool => exact Number.same_int.mpr rfl
  case float x              => exact Number.same_self (positive x rfl).float.1

theorem mem_of_mem_distinct {found : List Cell} (h : d ∈ distinct found) : d ∈ found := by
  induction found
  case nil => cases h
  case cons e found hi =>
    rw [distinct, List.mem_cons, List.mem_filter] at h
    exact List.mem_cons.mpr <| h.imp_right fun h => hi h.1

-- If one of some numbers is left alone, it is the only one.
theorem eq_of_mem_distinct {found : List Cell} (only : ∀ d ∈ found, d.number.same c.number → d = c)
    (h : ∀ d ∈ distinct found, d = c) : ∀ d ∈ found, d = c := by
  induction found
  case nil => exact nofun
  case cons e found hi =>
    have ⟨first, only⟩ := List.forall_mem_cons.mp only
    have ⟨he, h⟩ := List.forall_mem_cons.mp h
    subst he
    refine List.forall_mem_cons.mpr ⟨rfl, hi only fun d hd => ?_⟩
    cases same : d.number.same e.number
    case true  => exact only d (mem_of_mem_distinct hd) same
    case false => exact h d (List.mem_filter.mpr ⟨hd, by simp [same]⟩)

-- The one number of a column, if it is positive or there is none, in any order of the column.
theorem single?_perm {name : String} {found : Option Float} (h : single? name column = .ok found)
    (positive : ∀ x ∈ found, Number.Positive (.float x)) (perm : column'.Perm column) :
    single? name column' = .ok found := by
  have present : (cells column).filterMap id = column.filterMap (reading column) := by
    rw [cells_eq, List.filterMap_map, Function.id_comp]
  have present' : (cells column').filterMap id = column'.filterMap (reading column) := by
    rw [cells_perm perm, List.filterMap_map, Function.id_comp]
  have same := perm.filterMap (reading column)
  rw [single?, present] at h
  rw [single?, present']
  split at h
  case h_1 none =>
    cases h
    have empty : column.filterMap (reading column) = [] := by
      cases hs : column.filterMap (reading column)
      case nil => rfl
      case cons => rw [hs] at none; cases none
    rw [empty, List.perm_nil] at same
    rw [same]
    rfl
  case h_2 c one =>
    cases h
    have positive (x : Float) (hx : c = .float x) : Number.Positive (.float x) := by
      subst hx
      exact positive x rfl
    have mem : c ∈ column.filterMap (reading column) := mem_of_mem_distinct (one ▸ List.mem_singleton_self c)
    obtain ⟨cell, -, hc⟩ := List.mem_filterMap.mp mem
    have all : ∀ d ∈ column.filterMap (reading column), d = c := by
      refine eq_of_mem_distinct (fun d hd => ?_) (by simp [one])
      obtain ⟨cell', -, hd⟩ := List.mem_filterMap.mp hd
      exact eq_of_same hd hc positive
    obtain ⟨n, hn⟩ := Nat.exists_eq_succ_of_ne_zero (List.length_pos_of_mem mem).ne'
    have replicated := List.eq_replicate_of_mem all
    rw [hn] at replicated
    rw [replicated, List.perm_replicate] at same
    rw [same, distinct_replicate (same_number hc positive)]
  case h_3 => cases h

end Column

namespace Table

variable {t t' : Table} {names column : String}

-- The same rows, perhaps in another order.
structure Reorders (t t' : Table) : Prop where
  header : t'.header = t.header
  rows   : t'.rows.Perm t.rows

-- The cell of a row in a column.
def cell? (header : List String) (name : String) : Option (List String → String) :=
  (header.findIdx? (· == name)).map fun i row => row.getD i ""

theorem column?_eq (t : Table) (name : String) : t.column? name = (cell? t.header name).map t.rows.map := by
  rw [column?, cell?, Option.map_map]
  rfl

-- What the rows state under two columns: a name and a number.
def stated (t : Table) (names column : String) : List (String × Float) :=
  match t.column? names, t.column? column with
  | some ns, some cells => (ns.zip (Column.cells cells)).filterMap fun (n, cell) => cell.map fun c => (n, c.toFloat)
  | _, _                => []

theorem stated_perm (h : t.Reorders t') (names column : String) :
    (t'.stated names column).Perm (t.stated names column) := by
  simp only [stated, column?_eq, h.header]
  cases cell? t.header names
  case none => exact .rfl
  case some name =>
    cases cell? t.header column
    case none => exact .rfl
    case some cell =>
      simp only [Option.map_some]
      rw [Column.cells_perm (h.rows.map cell), Column.cells_eq, List.map_map, List.map_map, List.zip_map', List.zip_map',
        List.filterMap_map, List.filterMap_map]
      exact h.rows.filterMap _

-- Rows that are not wider than the header are a table in any order.
theorem ofRecords_reorders {header : List String} {rows rows' : List (List String)} (perm : rows'.Perm rows)
    (narrow : ∀ r ∈ rows, r.length ≤ header.length) :
    ∃ t t', ofRecords header rows = some t ∧ ofRecords header rows' = some t' ∧ t.Reorders t' := by
  have read {rows : List (List String)} (narrow : ∀ r ∈ rows, r.length ≤ header.length) :
      ofRecords header rows = some ⟨header, rows.map (pad header.length)⟩ := by
    have width : max header.length ((rows.head?.map List.length).getD 0) = header.length := by
      cases rows
      case nil         => simp
      case cons r rows => simpa using narrow r List.mem_cons_self
    have fits : ¬(rows.any (header.length < ·.length)) := by simpa using narrow
    rw [ofRecords, width, if_neg fits]
    simp
  exact ⟨_, _, read narrow, read fun r hr => narrow r (perm.mem_iff.mp hr), rfl, perm.map _⟩

end Table

end BoltzmannSampling
