import Mathlib
import BoltzmannSampling.Proofs.Tuning.Data
import BoltzmannSampling.Proofs.Tuning.Loading
import BoltzmannSampling.Tuning.Writing

/-!
Tuned systems as documents. Both layouts, probabilities by name and a list of types with constructors, record the
tuned system that they were made of: the first with its values as they stand, the second with those of the types in
the order of the table.
-/

namespace BoltzmannSampling

theorem Mode.ofText?_text (mode : Mode) : Mode.ofText? mode.text = some mode := by
  cases mode <;> decide

namespace TuningData

open Numbers

variable {place : Json → Quantity} {entries : List (String × Float)}

theorem numbersOf_numbersJson (entries : List (String × Float)) :
    numbersOf place (entries.map fun (name, x) => (name, .float x)) = .ok (ofTexts entries) := by
  refine numbersOf_eq_ok.mpr <| List.forall₂_map_left_iff.mpr <| List.forall₂_map_right_iff.mpr <|
    List.forall₂_same.mpr fun _ _ => ⟨rfl, rfl⟩

theorem ofFields_numbers (distinct : (entries.map (·.1)).Nodup) :
    Assoc.ofFields (entries.map fun (name, x) => (name, Json.float x)) = entries.map fun (name, x) => (name, .float x) :=
  Assoc.ofFields_of_nodup <| by rwa [List.map_map]

theorem valuesOf_numbersJson {doc : Json} (distinct : (entries.map (·.1)).Nodup)
    (h : doc.get? "values" = some (Tuned.numbersJson entries)) : valuesOf doc = .ok (ofTexts entries) := by
  rw [valuesOf, h, Tuned.numbersJson]
  cases entries
  case nil => rfl
  case cons e entries =>
    simp only [Json.isBlank, Json.entries?, ofFields_numbers distinct]
    rw [List.filter_eq_self.mpr (List.forall_mem_map.mpr fun _ _ => rfl)]
    exact numbersOf_numbersJson (e :: entries)

theorem ofNames_numbersJson {doc : Json} {values : List (String × Float)} (distinct : (entries.map (·.1)).Nodup)
    (distinct' : (values.map (·.1)).Nodup) (h : doc.get? "values" = some (Tuned.numbersJson values)) :
    ofNames doc (Tuned.numbersJson entries) = .ok ⟨ofTexts entries, [], ofTexts values⟩ := by
  have names : (entries.map fun (name, x) => (name, Json.float x)).map (·.1) = entries.map (·.1) := by
    rw [List.map_map]
    rfl
  simp only [ofNames, Tuned.numbersJson, ofFields_numbers distinct, numbersOf_numbersJson, names,
    valuesOf_numbersJson distinct' h, Assoc.repeated_of_nodup distinct]
  rfl

-- The entry of a constructor, as far as it is read.
def IsEntry (entry : Json) (x : String × Float) : Prop :=
  entry.get? "name" = some (.text x.1) ∧ entry.get? "probability" = some (.float x.2)

theorem addConstructor_eq {entry : Json} {x : String × Float} {values : Numbers} (h : IsEntry entry x)
    (fresh : x.1 ∉ entries.map (·.1)) :
    addConstructor ⟨ofTexts entries, [], values⟩ entry = .ok ⟨ofTexts (entries ++ [x]), [], values⟩ := by
  have new : has (ofTexts entries) (.text x.1) = false := by
    rw [← Bool.not_eq_true, has_ofTexts]
    exact fresh
  simp only [addConstructor, h.1, h.2, isName, new, put_ofTexts, Assoc.put_of_not_mem fresh]
  rfl

theorem addConstructors_eq {docs : List Json} {new : List (String × Float)} {values : Numbers}
    (h : List.Forall₂ IsEntry docs new) (distinct : ((entries ++ new).map (·.1)).Nodup) :
    docs.foldlM addConstructor ⟨ofTexts entries, [], values⟩ = .ok ⟨ofTexts (entries ++ new), [], values⟩ := by
  induction h generalizing entries
  case nil => simp [pure, Except.pure]
  case cons doc x docs new hx _ hi =>
    have fresh : x.1 ∉ entries.map (·.1) := by
      rw [List.map_append, List.nodup_append'] at distinct
      exact fun hm => distinct.2.2 hm List.mem_cons_self
    rw [List.foldlM_cons, addConstructor_eq hx fresh, List.append_cons entries x new]
    exact hi (by rwa [← List.append_cons])

theorem addValue_eq {c : Contents} {name : String} {found : Option Float} (hc : c.values = ofTexts entries)
    (fresh : name ∉ entries.map (·.1)) : addValue c (.text name) (found.map .float) =
      .ok { c with values := ofTexts (entries ++ found.toList.map (name, ·)) } := by
  cases found
  case none =>
    rw [Option.toList_none, List.map_nil, List.append_nil, ← hc]
    rfl
  case some x =>
    rw [Option.toList_some, List.map_singleton, ← Assoc.put_of_not_mem fresh, ← put_ofTexts, ← hc]
    rfl

end TuningData

namespace Tuned

open Numbers TuningData

variable {tuned : Tuned} {t : TypeDef} {ps : List Float}

theorem ofJson_dataJson (resolved : tuned.system.Resolved) (distinct : (tuned.values.map (·.1)).Nodup) :
    ∃ data, ofJson tuned.dataJson = .ok data ∧ data.Records tuned tuned.values := by
  have names : (tuned.constructorProbabilities.map (·.1)).Nodup :=
    constructorProbabilities_names tuned ▸ resolved.constructors
  have probabilities : tuned.dataJson.get? "probabilities" = some (numbersJson tuned.constructorProbabilities) := rfl
  have mode : modeOf tuned.dataJson = .ok (some tuned.mode) := by
    have found : tuned.dataJson.given? "mode" = some (.text tuned.mode.text) := rfl
    simp only [modeOf, found, isName, Json.text?, Option.bind_some, Mode.ofText?_text]
    rfl
  have contents : contentsOf tuned.dataJson =
      .ok ⟨ofTexts tuned.constructorProbabilities, [], ofTexts tuned.values⟩ := by
    rw [contentsOf, probabilities]
    exact ofNames_numbersJson names distinct rfl
  have data : ofJson tuned.dataJson = .ok ⟨some tuned.singularity, some tuned.parameter,
      ofTexts tuned.constructorProbabilities, ofTexts tuned.values, [], some tuned.mode⟩ := by
    rw [ofJson, mode, contents]
    rfl
  exact ⟨_, data, rfl, rfl, texts?_ofTexts _, rfl, .inl rfl, texts?_ofTexts _, .rfl⟩

theorem get?_typeJson_name (tuned : Tuned) (t : TypeDef) (ps : List Float) :
    (tuned.typeJson t ps).get? "name" = some (.text t.name) := by
  simp only [typeJson]
  split <;> rfl

theorem given?_typeJson_value (tuned : Tuned) (t : TypeDef) (ps : List Float) :
    (tuned.typeJson t ps).given? "value" = (tuned.value? t.name).map .float := by
  have found : (tuned.typeJson t ps).get? "value" = some (tuned.valueJson t.name) := by
    simp only [typeJson]
    split <;> rfl
  rw [Json.given?, found, valueJson]
  cases tuned.value? t.name <;> rfl

theorem partsOf_typeJson (tuned : Tuned) (t : TypeDef) (ps : List Float) :
    ∃ docs, Specification.partsOf (tuned.typeJson t ps) "constructors" = .ok docs ∧
      List.Forall₂ IsEntry docs ((t.constructors.map (·.name)).zip ps) := by
  have entries (f : Constructor Symbol → Float → Json) (h : ∀ c p, IsEntry (f c p) (c.name, p)) :
      List.Forall₂ IsEntry (List.zipWith f t.constructors ps) ((t.constructors.map (·.name)).zip ps) := by
    rw [← List.map_uncurry_zip_eq_zipWith, List.zip_map_left]
    exact List.forall₂_map_left_iff.mpr <| List.forall₂_map_right_iff.mpr <|
      List.forall₂_same.mpr fun x _ => h x.1 x.2
  simp only [typeJson]
  split
  case h_1 => exact ⟨_, rfl, entries _ fun _ _ => ⟨rfl, rfl⟩⟩
  case h_2 => exact ⟨_, rfl, entries _ fun _ _ => ⟨rfl, rfl⟩⟩

-- The value of a type, if it has one.
def valueEntry (tuned : Tuned) (t : TypeDef) : List (String × Float) :=
  (tuned.value? t.name).toList.map (t.name, ·)

-- The values in the order of the table.
def listedValues (tuned : Tuned) : List (String × Float) := tuned.system.types.flatMap tuned.valueEntry

theorem addType_typeJson {entries values : List (String × Float)}
    (distinct : ((entries ++ (t.constructors.map (·.name)).zip ps).map (·.1)).Nodup)
    (fresh : t.name ∉ values.map (·.1)) :
    addType ⟨ofTexts entries, [], ofTexts values⟩ (tuned.typeJson t ps) =
      .ok ⟨ofTexts (entries ++ (t.constructors.map (·.name)).zip ps), [], ofTexts (values ++ tuned.valueEntry t)⟩ := by
  have ⟨docs, parts, hd⟩ := tuned.partsOf_typeJson t ps
  simp only [addType, get?_typeJson_name, given?_typeJson_value, parts]
  rw [addValue_eq rfl fresh]
  exact addConstructors_eq hd distinct

theorem addTypes_typeJson {rows : List (TypeDef × List Float)} {entries values : List (String × Float)}
    (distinct : ((entries ++ rows.flatMap fun (t, ps) => (t.constructors.map (·.name)).zip ps).map (·.1)).Nodup)
    (types : (rows.map (·.1.name)).Nodup) (fresh : ∀ row ∈ rows, row.1.name ∉ values.map (·.1)) :
    (rows.map fun (t, ps) => tuned.typeJson t ps).foldlM addType ⟨ofTexts entries, [], ofTexts values⟩ =
      .ok ⟨ofTexts (entries ++ rows.flatMap fun (t, ps) => (t.constructors.map (·.name)).zip ps), [],
        ofTexts (values ++ rows.flatMap (tuned.valueEntry ·.1))⟩ := by
  induction rows generalizing entries values
  case nil => simp [pure, Except.pure]
  case cons row rows hi =>
    rw [List.flatMap_cons, ← List.append_assoc] at distinct
    have own := distinct
    rw [List.map_append, List.nodup_append'] at own
    have ⟨other, types⟩ := List.nodup_cons.mp types
    rw [List.map_cons, List.foldlM_cons, addType_typeJson own.1 (fresh row List.mem_cons_self), List.flatMap_cons,
      List.flatMap_cons, ← List.append_assoc, ← List.append_assoc]
    refine hi distinct types fun row' hr hm => ?_
    rw [List.map_append, List.mem_append] at hm
    rcases hm with hm | hm
    · exact fresh row' (List.mem_cons_of_mem _ hr) hm
    · simp only [valueEntry, List.map_map, List.mem_map] at hm
      have ⟨_, _, he⟩ := hm
      exact other <| List.mem_map.mpr ⟨row', hr, he.symm⟩

theorem listedValues_perm (names : tuned.system.names.Nodup) (distinct : (tuned.values.map (·.1)).Nodup)
    (known : ∀ v ∈ tuned.values, v.1 ∈ tuned.system.names) : tuned.listedValues.Perm tuned.values := by
  have mem {x : String × Float} {t : TypeDef} : x ∈ tuned.valueEntry t ↔ x.1 = t.name ∧ x ∈ tuned.values := by
    simp only [valueEntry, List.mem_map, Option.mem_toList, value?, Assoc.get?_eq_some distinct]
    constructor
    · rintro ⟨v, hv, rfl⟩
      exact ⟨rfl, hv⟩
    · rintro ⟨hn, hx⟩
      exact ⟨x.2, hn ▸ hx, by rw [← hn]⟩
  have listed : tuned.listedValues.Nodup := by
    refine List.nodup_flatMap.mpr ⟨fun t _ => ?_, ?_⟩
    · rw [valueEntry]
      cases tuned.value? t.name <;> simp
    · refine (List.pairwise_map.mp names).imp fun hn => ?_
      intro x hx hx'
      exact hn <| (mem.mp hx).1.symm.trans (mem.mp hx').1
  refine (List.perm_ext_iff_of_nodup listed (distinct.of_map _)).mpr fun x => ?_
  simp only [listedValues, List.mem_flatMap, mem]
  constructor
  · rintro ⟨_, _, _, hx⟩
    exact hx
  · intro hx
    have ⟨t, ht, hn⟩ := Specification.mem_names.mp (known x hx)
    exact ⟨t, ht, hn.symm, hx⟩

theorem ofJson_toJson (resolved : tuned.system.Resolved) (distinct : (tuned.values.map (·.1)).Nodup)
    (known : ∀ v ∈ tuned.values, v.1 ∈ tuned.system.names) :
    ∃ data, ofJson tuned.toJson = .ok data ∧ data.Records tuned tuned.listedValues := by
  have names : ((tuned.rows.flatMap fun (t, ps) => (t.constructors.map (·.name)).zip ps).map (·.1)).Nodup :=
    constructorProbabilities_names tuned ▸ resolved.constructors
  have types : (tuned.rows.map (·.1.name)).Nodup := by
    have distinct := resolved.names
    rwa [Specification.names, ← rows_types, List.map_map] at distinct
  have listed : tuned.rows.flatMap (tuned.valueEntry ·.1) = tuned.listedValues := by
    rw [listedValues, ← rows_types, List.flatMap_map]
  have none : tuned.toJson.get? "probabilities" = none := rfl
  have found : (tuned.toJson.get? "types").bind Json.array? =
      some (tuned.rows.map fun (t, ps) => tuned.typeJson t ps) := rfl
  have mode : modeOf tuned.toJson = .ok (some tuned.mode) := by
    have found : tuned.toJson.given? "mode" = some (.text tuned.mode.text) := rfl
    simp only [modeOf, found, isName, Json.text?, Option.bind_some, Mode.ofText?_text]
    rfl
  have contents : contentsOf tuned.toJson =
      .ok ⟨ofTexts tuned.constructorProbabilities, [], ofTexts tuned.listedValues⟩ := by
    have all := @addTypes_typeJson tuned tuned.rows [] [] names types (by simp)
    rw [List.nil_append, List.nil_append, listed] at all
    simp only [contentsOf, none, found]
    exact all
  have data : ofJson tuned.toJson = .ok ⟨some tuned.singularity, some tuned.parameter,
      ofTexts tuned.constructorProbabilities, ofTexts tuned.listedValues, [], some tuned.mode⟩ := by
    rw [ofJson, mode, contents]
    rfl
  exact ⟨_, data, rfl, rfl, texts?_ofTexts _, rfl, .inl rfl, texts?_ofTexts _,
    listedValues_perm resolved.names distinct known⟩

end Tuned

end BoltzmannSampling
