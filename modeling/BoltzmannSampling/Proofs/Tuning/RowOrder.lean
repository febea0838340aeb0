import Mathlib
import BoltzmannSampling.Proofs.Number.Halving
import BoltzmannSampling.Proofs.Table.Reordering
import BoltzmannSampling.Proofs.Tuning.Rejection
import BoltzmannSampling.Proofs.Tuning.Reloading

/-!
Tuning tables with the same rows in another order. They have the same singularity, parameter and probabilities, but
the value of a type is the last that a row states for it. So the order of the rows does not matter where no type is
stated with two values, and elsewhere the table is accepted exactly if the last value of every type is positive.
-/

namespace BoltzmannSampling

namespace TuningData

open Numbers

variable {path : String} {t t' : Table} {data : TuningData} {x : Float}

theorem isPositive.number (h : isPositive x) : Number.Positive (.float x) := by
  obtain ⟨finite, positive⟩ := Bool.and_eq_true_iff.mp h
  obtain ⟨_, _, _, unpacked⟩ := Binary64.unpack_positive finite (of_decide_eq_true positive)
  exact Binary64.positive_of_unpack unpacked

theorem valuesOfTable_eq (t : Table) : valuesOfTable t = ofTexts (Assoc.ofFields (t.stated "type" "value")) := by
  have general (cells : List (String × Option Cell)) (acc : List (String × Float)) :
      cells.foldl (fun (found : Numbers) e => (e.2.map fun c => found.put (.text e.1) c.toFloat).getD found)
        (ofTexts acc) = ofTexts ((cells.filterMap fun e => e.2.map fun c => (e.1, c.toFloat)).foldl
          (fun found e => Assoc.put found e.1 e.2) acc) := by
    induction cells generalizing acc
    case nil => rfl
    case cons entry cells hi =>
      obtain ⟨name, cell⟩ := entry
      cases cell
      case none   => exact hi acc
      case some c => exact (congrArg (List.foldl _ · cells) (put_ofTexts acc name c.toFloat)).trans (hi _)
  rw [valuesOfTable, Table.stated]
  cases t.column? "type" <;> cases t.column? "value"
  case some.some names column => exact general (names.zip (Column.cells column)) []
  all_goals rfl

theorem zip_filterMap {names : List String} {cells : List (Option Cell)} (all : ∀ cell ∈ cells, cell.isSome) :
    (names.zip (cells.filterMap id)).map (fun e => (e.1, e.2.toFloat)) =
      (names.zip cells).filterMap fun e => e.2.map fun c => (e.1, c.toFloat) := by
  induction cells generalizing names
  case nil => simp
  case cons cell cells hi =>
    obtain ⟨first, later⟩ := List.forall_mem_cons.mp all
    obtain ⟨c, rfl⟩ := Option.isSome_iff_exists.mp first
    cases names
    case nil             => rfl
    case cons name names => simpa using hi later

-- The data with other probabilities and values.
def holding (data : TuningData) (probabilities values : List (String × Float)) : TuningData :=
  { data with probabilities := ofTexts probabilities, values := ofTexts values }

-- What a table has to hold, and what is read from it.
structure Tabled (t : Table) (names column : List String) (data : TuningData) : Prop where
  constructors  : t.column? "constructor" = some names
  cells         : t.column? "probability" = some column
  required      : (t.column? "singularity").isSome
  numeric       : ∀ cell ∈ Column.cells column, cell.isSome
  singularity   : singleOf t "singularity" = .ok data.singularity
  parameter     : singleOf t "parameter" = .ok data.parameter
  probabilities : data.probabilities = ofTexts (Assoc.ofFields (t.stated "constructor" "probability"))
  values        : data.values = ofTexts (Assoc.ofFields (t.stated "type" "value"))
  duplicated    : data.duplicated = (Assoc.repeated names).map .text
  mode          : data.mode = none

theorem ofTable_eq_ok : ofTable path t = .ok data ↔ ∃ names column, Tabled t names column data := by
  have complete {names column : List String} (hn : t.column? "constructor" = some names)
      (hc : t.column? "probability" = some column) :
      ((names.zip (Column.cells column)).filter fun e => e.2.isNone).isEmpty = true ↔
        ∀ cell ∈ Column.cells column, cell.isSome := by
    have length : (Column.cells column).length = names.length := by
      rw [Column.length_cells, length_column hn, length_column hc]
    rw [List.isEmpty_iff, List.filter_eq_nil_iff]
    constructor
    · intro h cell hm
      rw [← List.map_snd_zip length.le] at hm
      obtain ⟨e, he, rfl⟩ := List.mem_map.mp hm
      exact Option.isSome_iff_ne_none.mpr (by simpa using h e he)
    · intro h e he
      simpa [Option.isSome_iff_ne_none] using h e.2 (List.of_mem_zip he).2
  have probabilities {names column : List String} (hn : t.column? "constructor" = some names)
      (hc : t.column? "probability" = some column) (numeric : ∀ cell ∈ Column.cells column, cell.isSome) :
      (names.zip ((Column.cells column).filterMap id)).foldl
        (fun (ps : Numbers) e => ps.put (.text e.1) e.2.toFloat) [] =
          ofTexts (Assoc.ofFields (t.stated "constructor" "probability")) := by
    rw [foldl_put_cells, zip_filterMap numeric, Table.stated, hn, hc]
  simp only [ofTable, Checks.bind_eq_ok, required_eq_ok]
  constructor
  · rintro ⟨names, hn, column, hc, _, hs, h⟩
    split at h
    case isTrue  => cases h
    case isFalse numeric =>
      rw [Bool.not_eq_true', Bool.not_eq_false] at numeric
      have numeric := (complete hn hc).mp numeric
      obtain ⟨_, singularity, h⟩ := Checks.bind_eq_ok.mp h
      obtain ⟨_, parameter, h⟩ := Checks.bind_eq_ok.mp h
      cases h
      exact ⟨names, column, hn, hc, hs ▸ rfl, numeric, singularity, parameter, probabilities hn hc numeric,
        valuesOfTable_eq t, rfl, rfl⟩
  · rintro ⟨names, column, hn, hc, required, numeric, singularity, parameter, hp, hv, hd, hm⟩
    obtain ⟨others, hs⟩ := Option.isSome_iff_exists.mp required
    refine ⟨names, hn, column, hc, others, hs, ?_⟩
    have full : ¬(!((names.zip (Column.cells column)).filter fun e => e.2.isNone).isEmpty) = true := by
      rw [(complete hn hc).mpr numeric]
      exact Bool.false_ne_true
    rw [if_neg full, singularity, parameter, probabilities hn hc numeric, valuesOfTable_eq, ← hp, ← hv, ← hd, ← hm]
    rfl

namespace Tabled

variable {names column : List String}

theorem map_stated (h : Tabled t names column data) : (t.stated "constructor" "probability").map (·.1) = names := by
  have length : (Column.cells column).length = names.length := by
    rw [Column.length_cells, length_column h.constructors, length_column h.cells]
  have kept := ((List.filterMap_length_eq_length (f := id)).mpr h.numeric).trans length
  rw [Table.stated, h.constructors, h.cells]
  dsimp only
  rw [← zip_filterMap h.numeric, List.map_map]
  exact List.map_fst_zip kept.ge

-- A column of one number, which is positive, or of none.
theorem singleOf_reorders {name : String} {found : Option Float} (h : t.Reorders t')
    (single : singleOf t name = .ok found) (positive : ∀ x ∈ found, Number.Positive (.float x)) :
    singleOf t' name = .ok found := by
  rw [singleOf, Table.column?_eq] at single ⊢
  rw [h.header]
  cases hc : Table.cell? t.header name
  case none => rwa [hc] at single
  case some cell =>
    rw [hc] at single
    exact Column.single?_perm single positive (h.rows.map cell)

theorem reordered (h : Tabled t names column data) (reorders : t.Reorders t') (distinct : names.Nodup)
    (singularity : ∀ x ∈ data.singularity, Number.Positive (.float x))
    (parameter : ∀ x ∈ data.parameter, Number.Positive (.float x)) : ∃ names' column', Tabled t' names' column'
      (data.holding (Assoc.ofFields (t'.stated "constructor" "probability")) (Assoc.ofFields (t'.stated "type" "value"))) := by
  obtain ⟨name, hn, rfl⟩ := Option.map_eq_some_iff.mp (t.column?_eq _ ▸ h.constructors)
  obtain ⟨cell, hc, rfl⟩ := Option.map_eq_some_iff.mp (t.column?_eq _ ▸ h.cells)
  have distinct' : (t'.rows.map name).Nodup := (reorders.rows.map name).nodup_iff.mpr distinct
  refine ⟨t'.rows.map name, t'.rows.map cell, ?_, ?_, ?_, ?_, ?_, ?_, rfl, rfl, ?_, h.mode⟩
  · rw [Table.column?_eq, reorders.header, hn, Option.map_some]
  · rw [Table.column?_eq, reorders.header, hc, Option.map_some]
  · have required := h.required
    rw [Table.column?_eq, Option.isSome_map] at required ⊢
    rwa [reorders.header]
  · rw [Column.cells_perm (reorders.rows.map cell)]
    have numeric := h.numeric
    rw [Column.cells_eq] at numeric
    exact fun found hf => numeric found (((reorders.rows.map cell).map _).mem_iff.mp hf)
  · exact singleOf_reorders reorders h.singularity singularity
  · exact singleOf_reorders reorders h.parameter parameter
  · exact h.duplicated.trans (by rw [Assoc.repeated_of_nodup distinct, Assoc.repeated_of_nodup distinct'])

end Tabled

-- The file at a path is a table.
def Holds (files : Files) (path : String) (asked : Option String) (t : Table) : Prop :=
  Format.ofFile (FilePath.normalize path) asked = .ok .csv ∧
    ∃ text, files (FilePath.normalize path) = .ok text ∧ Table.read? text = some t

theorem Holds.read {files : Files} {asked : Option String} (h : Holds files path asked t) :
    read files path asked = ofTable (FilePath.normalize path) t := by
  obtain ⟨format, text, found, table⟩ := h
  simp only [TuningData.read, format, found, bind, Except.bind, ofText, table]

end TuningData

namespace Tuned

open TuningData Numbers

variable {c : Checked} {mode : Mode} {files files' : Files} {path : String} {asked : Option String} {t t' : Table}
  {tuned tuned' : Tuned}

-- A table that is accepted has the last value that a row states for a type.
theorem values_of_load (resolved : c.system.Resolved) (holds : Holds files path asked t)
    (loaded : load files c mode path asked = .ok tuned) : tuned.values = Assoc.ofFields (t.stated "type" "value") := by
  obtain ⟨data, read, tune⟩ := Checks.bind_eq_ok.mp loaded
  rw [holds.read, ofTable_eq_ok] at read
  obtain ⟨_, _, tabled⟩ := read
  obtain ⟨-, -, -, -, -, -, values, -⟩ := (tune_eq_ok resolved.names).mp tune
  rw [tabled.values, texts?_ofTexts] at values
  exact (Option.some.inj values).symm

theorem value?_of_load (resolved : c.system.Resolved) (holds : Holds files path asked t)
    (loaded : load files c mode path asked = .ok tuned) (T : String) :
    tuned.value? T = (((t.stated "type" "value").filter (·.1 == T)).map (·.2)).getLast? := by
  rw [value?, values_of_load resolved holds loaded, Assoc.get?_ofFields]

theorem tune_holding {data : TuningData} {given given' values : List (String × Float)} (resolved : c.system.Resolved)
    (tune : data.tune c mode = .ok tuned) (probabilities : data.probabilities = ofTexts given)
    (perm : given'.Perm given) (distinct : (given.map (·.1)).Nodup) (known : ∀ v ∈ values, v.1 ∈ c.system.names) :
    (data.holding given' values).tune c mode = .ok tuned' ↔
      tuned' = { tuned with values } ∧ ∀ v ∈ values, isPositive v.2 := by
  obtain ⟨system, classification, moded, agrees, singularity, parameter, -, ⟨_, matching, vectors⟩, valid⟩ :=
    (tune_eq_ok resolved.names).mp tune
  obtain ⟨hg, named⟩ := matching_eq_ok.mp matching
  rw [probabilities, texts?_ofTexts] at hg
  cases hg
  obtain ⟨named, once⟩ := mismatch?_eq_none.mp named
  have matching' : (data.holding given' values).matching c.system = .ok given' := by
    refine matching_eq_ok.mpr ⟨texts?_ofTexts _, mismatch?_eq_none.mpr ⟨fun name => ?_, once⟩⟩
    rw [(perm.map _).mem_iff, named]
  have vectors' : c.system.types.map (vectorIn given') = c.system.types.map (vectorIn given) :=
    List.map_congr_left fun t _ => List.map_congr_left fun k _ => by rw [Assoc.get?_perm perm distinct]
  have accepted (positive : ∀ v ∈ values, isPositive v.2) :
      (data.holding given' values).tune c mode = .ok { tuned with values } :=
    (tune_eq_ok resolved.names).mpr ⟨system, classification, moded, agrees, singularity, parameter, texts?_ofTexts _,
      ⟨given', matching', vectors.trans vectors'.symm⟩, valid.singularity, valid.parameter, valid.probabilities,
      fun v hv => ⟨system ▸ known v hv, positive v hv⟩⟩
  constructor
  · intro h
    obtain ⟨-, -, -, -, -, -, hv, -, valid'⟩ := (tune_eq_ok resolved.names).mp h
    cases (texts?_ofTexts values).symm.trans hv
    have positive : ∀ v ∈ tuned'.values, isPositive v.2 := fun v hv => (valid'.values v hv).2
    exact ⟨Except.ok.inj (h.symm.trans (accepted positive)), positive⟩
  · rintro ⟨rfl, positive⟩
    exact accepted positive

-- What is read from a table in another order, once it is accepted in one.
theorem load_reordered (resolved : c.system.Resolved) (holds : Holds files path asked t)
    (holds' : Holds files' path asked t') (reorders : t.Reorders t') (loaded : load files c mode path asked = .ok tuned) :
    load files' c mode path asked = .ok tuned' ↔
      tuned' = { tuned with values := Assoc.ofFields (t'.stated "type" "value") } ∧
        ∀ v ∈ Assoc.ofFields (t'.stated "type" "value"), isPositive v.2 := by
  have values := values_of_load resolved holds loaded
  obtain ⟨data, read, tune⟩ := Checks.bind_eq_ok.mp loaded
  rw [holds.read, ofTable_eq_ok] at read
  obtain ⟨names, column, tabled⟩ := read
  obtain ⟨system, -, -, -, singularity, parameter, -, ⟨_, matching, -⟩, valid⟩ := (tune_eq_ok resolved.names).mp tune
  have distinct : names.Nodup := by
    have once := (mismatch?_eq_none.mp (matching_eq_ok.mp matching).2).2
    rw [tabled.duplicated, List.filterMap_map] at once
    exact Assoc.repeated_eq_nil.mp (List.filterMap_some.symm.trans once)
  have positive : ∀ x ∈ data.singularity, Number.Positive (.float x) := by
    rw [singularity]
    rintro _ ⟨⟩
    exact isPositive.number valid.singularity
  have positive' : ∀ x ∈ data.parameter, Number.Positive (.float x) := by
    intro x hx
    rw [Option.mem_def.mp hx, Option.getD_some] at parameter
    exact isPositive.number (parameter ▸ valid.parameter)
  have ⟨names', column', tabled'⟩ := tabled.reordered reorders distinct positive positive'
  have stated := Table.stated_perm reorders
  have own : ((t.stated "constructor" "probability").map (·.1)).Nodup := tabled.map_stated ▸ distinct
  have known : ∀ v ∈ Assoc.ofFields (t'.stated "type" "value"), v.1 ∈ c.system.names := by
    intro v hv
    have mem : v.1 ∈ (Assoc.ofFields (t.stated "type" "value")).map (·.1) := by
      rw [Assoc.mem_ofFields_names, ← ((stated "type" "value").map _).mem_iff, ← Assoc.mem_ofFields_names]
      exact List.mem_map_of_mem hv
    obtain ⟨w, hw, same⟩ := List.mem_map.mp (values ▸ mem)
    exact same ▸ system ▸ (valid.values w hw).1
  rw [load, holds'.read, ofTable_eq_ok.mpr ⟨names', column', tabled'⟩]
  exact tune_holding resolved tune tabled.probabilities
    (Assoc.ofFields_perm (stated _ _) (Assoc.consistent_of_nodup own)) (Assoc.ofFields_nodup _) known

-- Where no type is stated with two values, the order of the rows does not matter.
theorem load_reordered_of_consistent (resolved : c.system.Resolved) (holds : Holds files path asked t)
    (holds' : Holds files' path asked t') (reorders : t.Reorders t') (loaded : load files c mode path asked = .ok tuned)
    (consistent : Assoc.Consistent (t.stated "type" "value")) :
    ∃ values, values.Perm tuned.values ∧ load files' c mode path asked = .ok { tuned with values } := by
  obtain ⟨valid, -⟩ := valid_of_load resolved loaded
  have values := values_of_load resolved holds loaded
  have perm := Assoc.ofFields_perm (Table.stated_perm reorders "type" "value") consistent
  refine ⟨_, values ▸ perm, (load_reordered resolved holds holds' reorders loaded).mpr ⟨rfl, fun v hv => ?_⟩⟩
  exact (valid.values v (values ▸ perm.mem_iff.mp hv)).2

end Tuned

end BoltzmannSampling
