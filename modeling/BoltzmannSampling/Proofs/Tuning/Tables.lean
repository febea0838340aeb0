import Mathlib
import BoltzmannSampling.Proofs.Table.Column
import BoltzmannSampling.Proofs.Tuning.Documents

/-!
Tuned systems as tables, with one row for each constructor. A table records the tuned system that it was made of if
the texts of its numbers are read back and the column of the values has no gaps: a column with gaps is one of texts,
whose numbers are read digit by digit.
-/

namespace BoltzmannSampling

namespace Tuned

open Numbers TuningData

variable {tuned : Tuned} {entries : List (String × Float)}

-- The columns of the table.
theorem column_type (tuned : Tuned) : tuned.dataTable.column? "type" = some (tuned.frame.map (·.typeName)) :=
  congrArg some List.map_map

theorem column_constructor (tuned : Tuned) :
    tuned.dataTable.column? "constructor" = some (tuned.frame.map (·.constructor)) :=
  congrArg some List.map_map

theorem column_probability (tuned : Tuned) :
    tuned.dataTable.column? "probability" = some (tuned.frame.map (cell ·.probability)) :=
  congrArg some List.map_map

theorem column_singularity (tuned : Tuned) :
    tuned.dataTable.column? "singularity" = some (tuned.frame.map fun _ => cell tuned.singularity) :=
  congrArg some List.map_map

theorem column_parameter (tuned : Tuned) :
    tuned.dataTable.column? "parameter" = some (tuned.frame.map fun _ => cell tuned.parameter) :=
  congrArg some List.map_map

theorem column_value (tuned : Tuned) :
    tuned.dataTable.column? "value" = some (tuned.frame.map fun r => (r.value.map cell).getD "") :=
  congrArg some List.map_map

theorem frame_probabilities (tuned : Tuned) :
    tuned.frame.map (fun r => (r.constructor, r.probability)) = tuned.constructorProbabilities := by
  rw [frame, List.map_flatMap, constructorProbabilities]
  refine List.flatMap_congr fun row hr => ?_
  obtain ⟨t, ps⟩ := row
  have firsts : (ps.zip (thresholds ps)).map Prod.fst = ps := List.map_fst_zip (length_thresholds ps).ge
  have zipped : (t.constructors.map (·.name)).zip ps =
      (t.constructors.zip (ps.zip (thresholds ps))).map (Prod.map (·.name) Prod.fst) := by
    rw [← List.zip_map, firsts]
  dsimp only
  rw [zipped, List.map_map]
  rfl

-- The value of its type stands in every row of a constructor.
theorem frame_values (tuned : Tuned) : tuned.frame.map (fun r => (r.typeName, r.value)) =
    tuned.rows.flatMap fun (t, ps) => List.replicate ps.length (t.name, tuned.value? t.name) := by
  rw [frame, List.map_flatMap]
  refine List.flatMap_congr fun row hr => ?_
  obtain ⟨t, ps⟩ := row
  have length : (t.constructors.zip (ps.zip (thresholds ps))).length = ps.length := by
    simp [length_thresholds, length_of_mem_rows hr]
  dsimp only
  rw [List.map_map, ← length]
  exact List.eq_replicate_iff.mpr ⟨List.length_map _, List.forall_mem_map.mpr fun _ _ => rfl⟩

theorem foldl_put (distinct : (entries.map (·.1)).Nodup) :
    (entries.map fun e => (e.1, Cell.float e.2)).foldl (fun (ps : Numbers) (name, c) => ps.put (.text name) c.toFloat) [] =
      ofTexts entries := by
  have general (new acc : List (String × Float)) :
      (new.map fun e => (e.1, Cell.float e.2)).foldl (fun (ps : Numbers) (name, c) => ps.put (.text name) c.toFloat)
        (ofTexts acc) = ofTexts (new.foldl (fun acc e => Assoc.put acc e.1 e.2) acc) := by
    induction new generalizing acc
    case nil => rfl
    case cons x new hi =>
      rw [List.foldl_cons, ← hi, ← put_ofTexts]
      rfl
  exact (general entries []).trans (congrArg ofTexts (Assoc.ofFields_of_nodup distinct))

def putCell (found : Numbers) (entry : String × Option Cell) : Numbers :=
  (entry.2.map fun c => found.put (.text entry.1) c.toFloat).getD found

-- The rows of one type put its value once, however many they are.
theorem foldl_replicate {name : String} (fresh : name ∉ entries.map (·.1)) (x : Option Float) (n : Nat) :
    (List.replicate (n + 1) (name, x.map Cell.float)).foldl putCell (ofTexts entries) =
      ofTexts (entries ++ x.toList.map (name, ·)) := by
  have one : putCell (ofTexts entries) (name, x.map Cell.float) = ofTexts (entries ++ x.toList.map (name, ·)) := by
    cases x
    case none   => exact congrArg ofTexts (List.append_nil entries).symm
    case some x => exact (put_ofTexts ..).trans (congrArg ofTexts (Assoc.put_of_not_mem fresh x))
  have again : putCell (ofTexts (entries ++ x.toList.map (name, ·))) (name, x.map Cell.float) =
      ofTexts (entries ++ x.toList.map (name, ·)) := by
    cases x
    case none   => rfl
    case some x =>
      have put : entries ++ (some x).toList.map (name, ·) = Assoc.put entries name x :=
        (Assoc.put_of_not_mem fresh x).symm
      rw [put]
      exact (put_ofTexts ..).trans (congrArg ofTexts (Assoc.put_put ..))
  induction n
  case zero      => exact one
  case succ n hi => rw [List.replicate_succ', List.foldl_append, hi, List.foldl_cons, List.foldl_nil, again]

theorem foldl_rows {rows : List (TypeDef × List Float)} (inhabited : ∀ row ∈ rows, row.2 ≠ [])
    (types : (rows.map (·.1.name)).Nodup) (fresh : ∀ row ∈ rows, row.1.name ∉ entries.map (·.1)) :
    (rows.flatMap fun (t, ps) => List.replicate ps.length (t.name, (tuned.value? t.name).map Cell.float)).foldl putCell
      (ofTexts entries) = ofTexts (entries ++ rows.flatMap (tuned.valueEntry ·.1)) := by
  induction rows generalizing entries
  case nil => simp
  case cons row rows hi =>
    have ⟨own, inhabited⟩ := List.forall_mem_cons.mp inhabited
    have ⟨other, types⟩ := List.nodup_cons.mp types
    have ⟨new, fresh⟩ := List.forall_mem_cons.mp fresh
    have ⟨n, length⟩ : ∃ n, row.2.length = n + 1 := Nat.exists_eq_succ_of_ne_zero (List.length_eq_zero_iff.not.mpr own)
    rw [List.flatMap_cons, List.foldl_append, List.flatMap_cons, ← List.append_assoc]
    dsimp only
    rw [length, foldl_replicate new]
    refine hi inhabited types fun row' hr hm => ?_
    rw [List.map_append, List.mem_append] at hm
    rcases hm with hm | hm
    · exact fresh row' hr hm
    · simp only [List.map_map, List.mem_map] at hm
      have ⟨_, _, he⟩ := hm
      exact other <| List.mem_map.mpr ⟨row', hr, he.symm⟩

def numbers (tuned : Tuned) : List Float :=
  tuned.singularity :: tuned.parameter :: (tuned.values.map (·.2) ++ tuned.probabilities.flatten)

theorem probability_mem_numbers {ps : List Float} {p : Float} (hps : ps ∈ tuned.probabilities) (hp : p ∈ ps) :
    p ∈ tuned.numbers := by
  simp only [numbers, List.mem_cons, List.mem_append, List.mem_flatten]
  exact .inr (.inr (.inr ⟨ps, hps, hp⟩))

theorem value_mem_numbers {v : String × Float} (h : v ∈ tuned.values) : v.2 ∈ tuned.numbers := by
  simp only [numbers, List.mem_cons, List.mem_append]
  exact .inr (.inr (.inl (List.mem_map_of_mem h)))

theorem cell_finite {x : Float} (finite : x.isFinite) : cell x = Decimal.text x := by
  rw [cell, Number.not_isNaN finite]
  rfl

theorem Valid.inhabited (h : tuned.Valid) : ∀ row ∈ tuned.rows, row.2 ≠ [] := by
  intro row hr empty
  have mem : row.2 ∈ tuned.probabilities := tuned.rows_probabilities ▸ List.mem_map_of_mem hr
  have total := (h.probabilities _ mem).total
  rw [empty] at total
  have sum : Scalar.pairwiseSum ([] : List Float) = 0 := by
    rw [Scalar.pairwiseSum]
    rfl
  exact total (sum ▸ by decide +kernel)

theorem probability_mem {e : String × Float} (h : e ∈ tuned.constructorProbabilities) :
    ∃ ps ∈ tuned.probabilities, e.2 ∈ ps := by
  have ⟨row, hr, he⟩ := List.mem_flatMap.mp h
  exact ⟨row.2, tuned.rows_probabilities ▸ List.mem_map_of_mem hr, (List.of_mem_zip he).2⟩

theorem frame_ne_nil (valid : tuned.Valid) (types : tuned.system.types ≠ []) : tuned.frame ≠ [] := by
  intro empty
  have values := tuned.frame_values
  rw [empty, List.map_nil] at values
  obtain ⟨row, hr⟩ := List.exists_mem_of_ne_nil tuned.rows fun h => types (by rw [← rows_types, h]; rfl)
  have none := List.flatMap_eq_nil_iff.mp values.symm row hr
  exact valid.inhabited row hr (List.replicate_eq_nil_iff _ |>.mp none |> List.length_eq_zero_iff.mp)

theorem cells_probability (valid : tuned.Valid) (keeps : ∀ x ∈ tuned.numbers, Column.Keeps x)
    (types : tuned.system.types ≠ []) : Column.cells (tuned.frame.map (cell ·.probability)) =
      tuned.constructorProbabilities.map fun e => some (.float e.2) := by
  have column : tuned.frame.map (cell ·.probability) =
      (tuned.constructorProbabilities.map (·.2)).map Decimal.text := by
    rw [← frame_probabilities, List.map_map, List.map_map]
    refine List.map_congr_left fun r hr => ?_
    have mem : (r.constructor, r.probability) ∈ tuned.constructorProbabilities :=
      frame_probabilities tuned ▸ List.mem_map_of_mem (f := fun r : Row => (r.constructor, r.probability)) hr
    have ⟨ps, hps, hp⟩ := probability_mem mem
    exact cell_finite (Bool.and_eq_true_iff.mp ((valid.probabilities ps hps).probable _ hp)).1
  have nonempty : tuned.constructorProbabilities.map (·.2) ≠ [] := by
    rw [← frame_probabilities, List.map_map]
    simpa using frame_ne_nil valid types
  rw [column, Column.cells_texts nonempty, List.map_map]
  · rfl
  · refine List.forall_mem_map.mpr fun e he => keeps _ ?_
    have ⟨ps, hps, hp⟩ := probability_mem he
    exact probability_mem_numbers hps hp

theorem singleOf_text {name : String} {x : Float} (valid : tuned.Valid) (types : tuned.system.types ≠ [])
    (column : tuned.dataTable.column? name = some (tuned.frame.map fun _ => cell x)) (finite : x.isFinite)
    (keeps : Column.Keeps x) : singleOf tuned.dataTable name = .ok (some x) := by
  have ⟨n, length⟩ : ∃ n, tuned.frame.length = n + 1 :=
    Nat.exists_eq_succ_of_ne_zero (List.length_eq_zero_iff.not.mpr (frame_ne_nil valid types))
  have same : (tuned.frame.map fun _ => cell x) = List.replicate (n + 1) (Decimal.text x) := by
    rw [List.map_const', length, cell_finite finite]
  rw [singleOf, column, same]
  exact Column.single?_text name finite keeps n

-- The column of the values has no gaps: every type has a value, or none has.
def Complete (tuned : Tuned) : Prop := (∀ T ∈ tuned.system.names, (tuned.value? T).isSome) ∨ tuned.values = []

theorem frame_value_mem {r : Row} (hr : r ∈ tuned.frame) :
    r.value = tuned.value? r.typeName ∧ r.typeName ∈ tuned.system.names := by
  have mem : (r.typeName, r.value) ∈ tuned.frame.map fun r => (r.typeName, r.value) := List.mem_map_of_mem hr
  rw [frame_values] at mem
  have ⟨row, hrow, he⟩ := List.mem_flatMap.mp mem
  obtain ⟨hn, hv⟩ := Prod.mk.inj (List.eq_of_mem_replicate he)
  refine ⟨hn ▸ hv, hn ▸ Specification.name_mem_names ?_⟩
  exact tuned.rows_types ▸ List.mem_map_of_mem hrow

theorem cells_value (valid : tuned.Valid) (distinct : (tuned.values.map (·.1)).Nodup)
    (keeps : ∀ x ∈ tuned.numbers, Column.Keeps x) (types : tuned.system.types ≠ []) (complete : tuned.Complete) :
    Column.cells (tuned.frame.map fun r => (r.value.map cell).getD "") =
      tuned.frame.map fun r => r.value.map Cell.float := by
  have nonempty := frame_ne_nil valid types
  rcases complete with complete | absent
  · have found (r : Row) (hr : r ∈ tuned.frame) : ∃ x, r.value = some x ∧ (r.typeName, x) ∈ tuned.values := by
      have ⟨hv, hn⟩ := frame_value_mem hr
      have ⟨x, hx⟩ := Option.isSome_iff_exists.mp (complete _ hn)
      exact ⟨x, hv.trans hx, (Assoc.get?_eq_some distinct).mp hx⟩
    have texts : (tuned.frame.map fun r => (r.value.map cell).getD "") =
        (tuned.frame.map fun r => r.value.getD 0).map Decimal.text := by
      rw [List.map_map]
      refine List.map_congr_left fun r hr => ?_
      have ⟨x, hx, mem⟩ := found r hr
      simp only [Function.comp_apply, hx]
      exact cell_finite (Bool.and_eq_true_iff.mp (valid.values _ mem).2).1
    rw [texts, Column.cells_texts (by simpa using nonempty), List.map_map]
    · refine List.map_congr_left fun r hr => ?_
      have ⟨x, hx, _⟩ := found r hr
      simp only [Function.comp_apply, hx]
      rfl
    · refine List.forall_mem_map.mpr fun r hr => keeps _ ?_
      have ⟨x, hx, mem⟩ := found r hr
      rw [hx]
      exact value_mem_numbers mem
  · have none (r : Row) (hr : r ∈ tuned.frame) : r.value = none := by
      rw [(frame_value_mem hr).1, value?, absent]
      rfl
    rw [Column.cells_blank (by simpa using nonempty), List.map_map]
    · exact List.map_congr_left fun r hr => by rw [none r hr]; rfl
    · exact List.forall_mem_map.mpr fun r hr => by rw [none r hr]; rfl

theorem valuesOfTable_dataTable (resolved : tuned.system.Resolved) (valid : tuned.Valid)
    (distinct : (tuned.values.map (·.1)).Nodup) (keeps : ∀ x ∈ tuned.numbers, Column.Keeps x)
    (types : tuned.system.types ≠ []) (complete : tuned.Complete) :
    valuesOfTable tuned.dataTable = ofTexts tuned.listedValues := by
  have names : (tuned.rows.map (·.1.name)).Nodup := by
    have distinct := resolved.names
    rwa [Specification.names, ← rows_types, List.map_map] at distinct
  have listed : tuned.rows.flatMap (tuned.valueEntry ·.1) = tuned.listedValues := by
    rw [listedValues, ← rows_types, List.flatMap_map]
  have entries : (tuned.frame.map (·.typeName)).zip (tuned.frame.map fun r => r.value.map Cell.float) =
      tuned.rows.flatMap fun (t, ps) => List.replicate ps.length (t.name, (tuned.value? t.name).map Cell.float) := by
    have values := congrArg (List.map fun e : String × Option Float => (e.1, e.2.map Cell.float)) tuned.frame_values
    rw [List.map_map, List.map_flatMap] at values
    rw [List.zip_map']
    refine values.trans <| List.flatMap_congr fun row _ => ?_
    rw [List.map_replicate]
  have all := @foldl_rows tuned [] tuned.rows valid.inhabited names (by simp)
  rw [← entries, List.nil_append, listed] at all
  simp only [valuesOfTable, column_type, column_value, cells_value valid distinct keeps types complete]
  exact all

theorem required_eq {path name : String} {t : Table} {column : List String} (h : t.column? name = some column) :
    required path t name = .ok column := by
  rw [required, h]
  rfl

theorem ofTable_dataTable (path : String) (resolved : tuned.system.Resolved) (valid : tuned.Valid)
    (distinct : (tuned.values.map (·.1)).Nodup) (keeps : ∀ x ∈ tuned.numbers, Column.Keeps x)
    (types : tuned.system.types ≠ []) (complete : tuned.Complete) :
    ∃ data, ofTable path tuned.dataTable = .ok data ∧ data.Records tuned tuned.listedValues := by
  have names : (tuned.constructorProbabilities.map (·.1)).Nodup :=
    constructorProbabilities_names tuned ▸ resolved.constructors
  have constructors : tuned.frame.map (·.constructor) = tuned.constructorProbabilities.map (·.1) := by
    rw [← frame_probabilities, List.map_map]
    rfl
  have found : (tuned.constructorProbabilities.map (·.1)).zip
      (tuned.constructorProbabilities.map fun e => some (Cell.float e.2)) =
        tuned.constructorProbabilities.map fun e => (e.1, some (Cell.float e.2)) := List.zip_map'
  have singularity : singleOf tuned.dataTable "singularity" = .ok (some tuned.singularity) :=
    singleOf_text valid types tuned.column_singularity (Bool.and_eq_true_iff.mp valid.singularity).1
      (keeps _ List.mem_cons_self)
  have parameter : singleOf tuned.dataTable "parameter" = .ok (some tuned.parameter) :=
    singleOf_text valid types tuned.column_parameter (Bool.and_eq_true_iff.mp valid.parameter).1
      (keeps _ (List.mem_cons_of_mem _ List.mem_cons_self))
  have data : ofTable path tuned.dataTable = .ok ⟨some tuned.singularity, some tuned.parameter,
      ofTexts tuned.constructorProbabilities, ofTexts tuned.listedValues, [], none⟩ := by
    have present : (tuned.constructorProbabilities.map fun e => (e.1, some (Cell.float e.2))).filter (·.2.isNone) = [] :=
      List.filter_eq_nil_iff.mpr <| List.forall_mem_map.mpr fun _ _ => Bool.false_ne_true
    have numbers : (tuned.constructorProbabilities.map fun e => some (Cell.float e.2)).filterMap id =
        tuned.constructorProbabilities.map fun e => Cell.float e.2 := by
      rw [List.filterMap_map]
      exact congrFun List.filterMap_eq_map _
    have entries : (tuned.constructorProbabilities.map (·.1)).zip
        (tuned.constructorProbabilities.map fun e => Cell.float e.2) =
          tuned.constructorProbabilities.map fun e => (e.1, Cell.float e.2) := List.zip_map'
    simp only [ofTable, required_eq tuned.column_constructor, required_eq tuned.column_probability,
      required_eq tuned.column_singularity, singularity, parameter, bind, Except.bind, constructors,
      cells_probability valid keeps types, found, present, numbers, entries, foldl_put names,
      valuesOfTable_dataTable resolved valid distinct keeps types complete, Assoc.repeated_of_nodup names]
    rfl
  exact ⟨_, data, rfl, rfl, texts?_ofTexts _, rfl, .inr rfl, texts?_ofTexts _,
    listedValues_perm resolved.names distinct fun v hv => (valid.values v hv).1⟩

end Tuned

end BoltzmannSampling
