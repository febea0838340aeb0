import Mathlib
import BoltzmannSampling.Proofs.Json.Doubles
import BoltzmannSampling.Proofs.Json.Printing
import BoltzmannSampling.Proofs.Specification.Acceptance
import BoltzmannSampling.Proofs.Table.Doubles
import BoltzmannSampling.Proofs.Table.Printing
import BoltzmannSampling.Proofs.Tuning.Tables

/-!
Tuning files that were written are loaded again. Whatever a tuned system was loaded from, its own document, its table
and its description as a document are loaded as the same tuned system, as long as its weights are finite, its annotations
are read back and the table has a value for every type or for none.
-/

namespace BoltzmannSampling

namespace Json

theorem faithful_symbol (x : Symbol) : x.toJson.Faithful := by
  cases x
  case ref | epsilon => exact .text _
  case atom a =>
    simp only [Symbol.toJson, Atom.toJson]
    split
    case isTrue  => exact .text _
    case isFalse => exact .object (List.nodup_singleton _) (List.forall_mem_singleton.mpr (.number (readsBack_int _)))

theorem faithful_arg (a : Arg) : a.toJson.Faithful := by
  cases a
  case plain x  => exact faithful_symbol x
  case many m e => exact .object (List.nodup_singleton _) (List.forall_mem_singleton.mpr (faithful_symbol _))

end Json

namespace Tuned

open Json

variable {tuned : Tuned} {c : Checked} {t : TypeDef} {ps : List Float}

theorem faithful_numbers {numbers : List (String × Float)} (distinct : (numbers.map (·.1)).Nodup)
    (reads : ∀ n ∈ numbers, ReadsBack (.float n.2)) : (numbersJson numbers).Faithful :=
  .object (by rwa [List.map_map]) (List.forall_mem_map.mpr fun n hn => .number (reads n hn))

theorem faithful_dataJson (resolved : tuned.system.Resolved) (distinct : (tuned.values.map (·.1)).Nodup)
    (reads : ∀ x ∈ tuned.numbers, ReadsBack (.float x)) : tuned.dataJson.Faithful := by
  have names : (tuned.constructorProbabilities.map (·.1)).Nodup :=
    constructorProbabilities_names tuned ▸ resolved.constructors
  have probabilities : ∀ e ∈ tuned.constructorProbabilities, ReadsBack (.float e.2) := fun e he =>
    have ⟨_, hps, hp⟩ := probability_mem he
    reads _ (probability_mem_numbers hps hp)
  have values : ∀ v ∈ tuned.values, ReadsBack (.float v.2) := fun v hv => reads _ (value_mem_numbers hv)
  refine .object (by simp) ?_
  simp only [List.forall_mem_cons, List.not_mem_nil, false_imp_iff, implies_true, and_true]
  exact ⟨.text _, .text _, .number (reads _ List.mem_cons_self),
    .number (reads _ (List.mem_cons_of_mem _ List.mem_cons_self)), faithful_numbers distinct values,
    faithful_numbers names probabilities⟩

theorem faithful_zipWith {α β : Type} {f : α → β → Json} {xs : List α} {ys : List β}
    (h : ∀ x ∈ xs, ∀ y ∈ ys, (f x y).Faithful) : ∀ doc ∈ List.zipWith f xs ys, doc.Faithful := by
  rw [← List.map_uncurry_zip_eq_zipWith]
  exact List.forall_mem_map.mpr fun x hx => h _ (List.of_mem_zip hx).1 _ (List.of_mem_zip hx).2

theorem faithful_typeJson (values : ∀ v ∈ tuned.values, ReadsBack (.float v.2))
    (weights : ∀ c ∈ t.constructors, ReadsBack (.float c.weight)) (probabilities : ∀ p ∈ ps, ReadsBack (.float p)) :
    (tuned.typeJson t ps).Faithful := by
  have value : (tuned.valueJson t.name).Faithful := by
    rw [valueJson]
    cases hv : tuned.value? t.name
    case none   => exact .null
    case some x =>
      obtain ⟨v, hf, he⟩ := Option.map_eq_some_iff.mp hv
      exact .number (he ▸ values v (List.mem_of_find?_eq_some hf))
  simp only [typeJson]
  split
  case h_1 =>
    have entry : ∀ c ∈ t.constructors, ∀ p ∈ ps, (auxiliaryConstructorJson c p).Faithful := by
      intro c _ p hp
      refine .object (by simp) ?_
      simp only [List.forall_mem_cons, List.not_mem_nil, false_imp_iff, implies_true, and_true]
      exact ⟨.text _, .number (probabilities p hp)⟩
    refine .object (by simp) ?_
    simp only [List.cons_append, List.nil_append, List.forall_mem_cons, List.not_mem_nil, false_imp_iff, implies_true,
      and_true]
    exact ⟨.text _, value, .text _, .text _, .array (faithful_zipWith entry)⟩
  case h_2 =>
    have entry : ∀ c ∈ t.constructors, ∀ p ∈ ps, (tuned.constructorJson c p).Faithful := by
      intro c hc p hp
      refine .object (by simp [Specification.constructorFields]) ?_
      simp only [Specification.constructorFields, List.cons_append, List.nil_append, List.forall_mem_cons,
        List.not_mem_nil, false_imp_iff, implies_true, and_true]
      exact ⟨.text _, .array (List.forall_mem_map.mpr fun _ _ => faithful_arg _), .number (weights c hc),
        .number (probabilities p hp)⟩
    refine .object (by simp) ?_
    simp only [List.cons_append, List.nil_append, List.forall_mem_cons, List.not_mem_nil, false_imp_iff, implies_true,
      and_true]
    exact ⟨.text _, value, .array (faithful_zipWith entry)⟩

theorem faithful_toJson (annotations : (Json.object tuned.system.annotations).Faithful)
    (weights : ∀ p ∈ tuned.system.productions, ReadsBack (.float p.2.weight))
    (reads : ∀ x ∈ tuned.numbers, ReadsBack (.float x)) : tuned.toJson.Faithful := by
  have types : ∀ row ∈ tuned.rows, (tuned.typeJson row.1 row.2).Faithful := by
    intro row hr
    have ht : row.1 ∈ tuned.system.types := tuned.rows_types ▸ List.mem_map_of_mem hr
    have hps : row.2 ∈ tuned.probabilities := tuned.rows_probabilities ▸ List.mem_map_of_mem hr
    exact faithful_typeJson (fun v hv => reads _ (value_mem_numbers hv))
      (fun c hc => weights (row.1, c) (Specification.mem_productions.mpr ⟨ht, hc⟩))
      fun p hp => reads p (probability_mem_numbers hps hp)
  refine .object (by simp) ?_
  simp only [List.forall_mem_cons, List.not_mem_nil, false_imp_iff, implies_true, and_true]
  exact ⟨.text _, .text _, .number (reads _ List.mem_cons_self),
    .number (reads _ (List.mem_cons_of_mem _ List.mem_cons_self)), annotations, .array (List.forall_mem_map.mpr types)⟩

theorem regular_dataTable (tuned : Tuned) : tuned.dataTable.Regular where
  wide := by simp [dataTable]
  rows := List.forall_mem_map.mpr fun _ _ => rfl
  mark := by
    have header : (Table.record tuned.dataTable.header).toList.head? = some 't' := by
      change (Table.record ["type", "constructor", "probability", "singularity", "parameter", "value"]).toList.head? = _
      decide
    rw [Table.print, String.join_cons, String.toList_append, List.head?_append, header, Option.some_or]
    decide

-- What is loaded passes the checks again, and its values have different names.
theorem valid_of_load {files : Files} {mode : Mode} {path : String} {asked : Option String}
    (resolved : c.system.Resolved) (h : load files c mode path asked = .ok tuned) :
    tuned.Valid ∧ (tuned.values.map (·.1)).Nodup ∧ tuned.system = c.system ∧
      tuned.classification = c.classification ∧ tuned.mode = mode := by
  obtain ⟨data, read, tune⟩ := Checks.bind_eq_ok.mp h
  obtain ⟨system, classification, mode, -, -, -, values, -, valid⟩ := (tune_eq_ok resolved.names).mp tune
  have distinct := TuningData.distinct_read read
  rw [Numbers.texts?_eq_some.mp values, Numbers.distinct_ofTexts] at distinct
  exact ⟨valid, distinct, system, classification, mode⟩

-- A text of some format that is loaded as a tuned system, with its values in some order.
def Restores (c : Checked) (tuned : Tuned) (format : Format) (text : String) : Prop :=
  ∀ (files : Files) (path : String) (asked : Option String), Format.ofFile (FilePath.normalize path) asked = .ok format →
    files (FilePath.normalize path) = .ok text →
      ∃ values, values.Perm tuned.values ∧ load files c tuned.mode path asked = .ok { tuned with values }

theorem restores_of_records {format : Format} {text : String}
    (resolved : c.system.Resolved) (valid : tuned.Valid) (system : tuned.system = c.system)
    (classification : tuned.classification = c.classification)
    (h : ∀ path, ∃ data, TuningData.ofText path format text = .ok data ∧ ∃ values, data.Records tuned values) :
    Restores c tuned format text := by
  intro files path asked hf ht
  have ⟨data, read, values, records⟩ := h (FilePath.normalize path)
  refine ⟨values, records.same, ?_⟩
  simp only [load, TuningData.read, hf, ht, read, bind, Except.bind]
  exact records.tune_eq resolved valid system classification

theorem ofText_json {path : String} {doc : Json} {data : TuningData} (object : ∃ fields, doc = .object fields)
    (faithful : doc.Faithful) (h : TuningData.ofJson doc = .ok data) :
    TuningData.ofText path .json doc.print = .ok data := by
  obtain ⟨fields, rfl⟩ := object
  simp only [TuningData.ofText, read?_print faithful, h]

theorem finite_numbers (valid : tuned.Valid) : ∀ x ∈ tuned.numbers, x.isFinite = true := by
  have positive {x : Float} (h : TuningData.isPositive x) : x.isFinite = true := (Bool.and_eq_true_iff.mp h).1
  intro x hx
  simp only [numbers, List.mem_cons, List.mem_append, List.mem_map, List.mem_flatten] at hx
  obtain rfl | rfl | ⟨v, hv, rfl⟩ | ⟨ps, hps, hp⟩ := hx
  · exact positive valid.singularity
  · exact positive valid.parameter
  · exact positive (valid.values v hv).2
  · exact (Bool.and_eq_true_iff.mp ((valid.probabilities ps hps).probable x hp)).1

theorem restores_written (resolved : c.system.Resolved) (types : c.system.types ≠ []) (valid : tuned.Valid)
    (distinct : (tuned.values.map (·.1)).Nodup) (system : tuned.system = c.system)
    (classification : tuned.classification = c.classification)
    (weights : ∀ p ∈ tuned.system.productions, p.2.weight.isFinite = true)
    (annotations : (Json.object tuned.system.annotations).Faithful) :
    Restores c tuned .json (tuned.fileText .json) ∧ Restores c tuned .json tuned.toJson.print ∧
      (tuned.Complete → Restores c tuned .csv (tuned.fileText .csv)) := by
  have finite := finite_numbers valid
  have reads : ∀ x ∈ tuned.numbers, ReadsBack (.float x) := fun x hx => readsBack_float (finite x hx)
  have keeps : ∀ x ∈ tuned.numbers, Column.Keeps x := fun x hx => Column.keeps (finite x hx)
  have weights : ∀ p ∈ tuned.system.productions, ReadsBack (.float p.2.weight) := fun p hp => readsBack_float (weights p hp)
  have known : ∀ v ∈ tuned.values, v.1 ∈ tuned.system.names := fun v hv => (valid.values v hv).1
  have own : tuned.system.Resolved := system ▸ resolved
  have restores {format : Format} {text : String} :=
    @restores_of_records tuned c format text resolved valid system classification
  refine ⟨restores fun path => ?_, restores fun path => ?_, fun complete => restores fun path => ?_⟩
  · have ⟨data, read, records⟩ := ofJson_dataJson own distinct
    exact ⟨data, ofText_json ⟨_, rfl⟩ (faithful_dataJson own distinct reads) read, _, records⟩
  · have ⟨data, read, records⟩ := ofJson_toJson own distinct known
    exact ⟨data, ofText_json ⟨_, rfl⟩ (faithful_toJson annotations weights reads) read, _, records⟩
  · have ⟨data, read, records⟩ := ofTable_dataTable path own valid distinct keeps (system ▸ types) complete
    refine ⟨data, ?_, _, records⟩
    simp only [TuningData.ofText, fileText, Table.read?_print (regular_dataTable tuned), read]

end Tuned

end BoltzmannSampling
