import Mathlib
import BoltzmannSampling.Proofs.Derivation.Auxiliary
import BoltzmannSampling.Proofs.Specification.Escapes
import BoltzmannSampling.Proofs.Specification.Table

/-!
When declarations are admitted as a system, said of the declarations alone. References and repeated names are looked for
in the table, but the names of its auxiliary types and of their constructors are known from the modifiers among the
arguments, wherever these stand. Whatever is not admitted is a fault of the model.
-/

namespace BoltzmannSampling

namespace Declaration

-- The names of the declared constructors and of those of the auxiliary types.
def constructorNames (ds : List Declaration) : List String :=
  ds.flatMap (fun d => d.proper.map (·.name)) ++
    (uses ds).dedup.flatMap fun name => [name ++ ".Nil", name ++ ".Cons"]

end Declaration

-- A text, or a number; truth values count as numbers.
def Json.IsScalar (v : Json) : Prop := (∃ s, v = .text s) ∨ (∃ n, v = .number n) ∨ ∃ b, v = .bool b

namespace Specification

variable {s : Specification} {ds : List Declaration} {entries : List (Except Json Declaration)}
  {annotations : List (Json × Json)} {texts : List (String × Json)} {name r : String}

structure Admissible (ds : List Declaration) (annotations : List (Json × Json)) : Prop where
  nonempty     : ds ≠ []
  names        : (ds.map Declaration.name).Nodup
  plain        : ∀ d ∈ ds, d.kind = .text "plain"
  inhabited    : ∀ d ∈ ds, d.constructors ≠ [] ∧ d.constructors = d.proper.map .ok
  operands     : ∀ d ∈ ds, ∀ c ∈ d.proper, ∀ m T, .many m (.ref T) ∈ c.args → T ∈ ds.map Declaration.name
  fresh        : ∀ name ∈ Declaration.uses ds, name ∉ ds.map Declaration.name
  constructors : (Declaration.constructorNames ds).Nodup
  references   : ∀ d ∈ ds, ∀ c ∈ d.proper, ∀ T, .plain (.ref T) ∈ c.args →
    T ∈ ds.map Declaration.name ∨ T ∈ Declaration.uses ds
  annotations  : ∀ e ∈ annotations, (∃ key, e.1 = .text key) ∧ e.2.IsScalar

section Table

theorem mem_uses : name ∈ Declaration.uses ds ↔
    ∃ d ∈ ds, ∃ c ∈ d.proper, ∃ m e, .many m e ∈ c.args ∧ TypeDef.auxiliaryName m e = name := by
  simp only [Declaration.uses, List.mem_flatMap, List.mem_filterMap]
  constructor
  · rintro ⟨d, hd, c, hc, _ | ⟨m, e⟩, ha, he⟩
    · cases he
    · exact ⟨d, hd, c, hc, m, e, ha, Option.some.inj he⟩
  · rintro ⟨d, hd, c, hc, m, e, ha, rfl⟩
    exact ⟨d, hd, c, hc, _, ha, rfl⟩

theorem mem_names_auxiliaries : name ∈ (auxiliaries ds).map TypeDef.name ↔ name ∈ Declaration.uses ds := by
  rw [auxiliaries, mem_firstOfEachName, map_auxiliaries]

theorem mem_names_ofTable :
    name ∈ (ofTable ds texts).names ↔ name ∈ ds.map Declaration.name ∨ name ∈ Declaration.uses ds := by
  rw [names, ofTable, table, List.map_append, List.mem_append, mem_names_auxiliaries, List.map_map]
  rfl

theorem constructorNames_ofTable :
    (ofTable ds texts).constructorNames.Perm (Declaration.constructorNames ds) := by
  have names (s : Specification) : s.constructorNames = s.types.flatMap fun t => t.constructors.map (·.name) := by
    simp [constructorNames, productions, List.map_flatMap, Function.comp_def]
  have declared (d : Declaration) : (declaredType d).constructors.map (·.name) = d.proper.map (·.name) :=
    List.map_map
  have auxiliary : (auxiliaries ds).flatMap (fun t => t.constructors.map (·.name)) =
      ((auxiliaries ds).map TypeDef.name).flatMap fun name => [name ++ ".Nil", name ++ ".Cons"] := by
    rw [List.flatMap_map]
    refine List.flatMap_congr fun t ht => ?_
    obtain ⟨_, _, _, _, _, _, _, rfl⟩ := mem_auxiliaries ht
    rfl
  have once : ((auxiliaries ds).map TypeDef.name).Perm (Declaration.uses ds).dedup := by
    refine (List.perm_ext_iff_of_nodup (firstOfEachName_nodup _) (List.nodup_dedup _)).mpr fun name => ?_
    rw [List.mem_dedup]
    exact mem_names_auxiliaries
  rw [names, ofTable, table, List.flatMap_append, List.flatMap_map, auxiliary]
  simp only [declared]
  exact (once.flatMap_right _).append_left _

-- A reference of the table is a declared one, or has come from a modifier.
theorem mem_names_of_ref
    (operands : ∀ d ∈ ds, ∀ c ∈ d.proper, ∀ m T, .many m (.ref T) ∈ c.args → T ∈ ds.map Declaration.name)
    (references : ∀ d ∈ ds, ∀ c ∈ d.proper, ∀ T, .plain (.ref T) ∈ c.args →
      T ∈ ds.map Declaration.name ∨ T ∈ Declaration.uses ds) {t : TypeDef} (ht : t ∈ table ds)
    {c : Constructor Symbol} (hc : c ∈ t.constructors) (hr : r ∈ c.refs) :
    r ∈ ds.map Declaration.name ∨ r ∈ Declaration.uses ds := by
  rcases List.mem_append.mp ht with declared | auxiliary
  · obtain ⟨d, hd, rfl⟩ := List.mem_map.mp declared
    obtain ⟨k, hk, rfl⟩ := List.mem_map.mp hc
    obtain ⟨_, symbol, hx⟩ := List.mem_filterMap.mp hr
    obtain ⟨a, ha, rfl⟩ := List.mem_map.mp symbol
    cases a
    case plain x =>
      cases x <;> cases hx
      exact references d hd k hk r ha
    case many m e =>
      cases hx
      exact .inr (mem_uses.mpr ⟨d, hd, k, hk, m, e, ha, rfl⟩)
  · obtain ⟨d, hd, k, hk, m, e, ha, rfl⟩ := mem_auxiliaries auxiliary
    rw [Constructor.auxiliary_constructors, List.mem_pair] at hc
    rcases hc with rfl | rfl
    · cases hr
    · rw [Constructor.cons_refs, List.mem_append, List.mem_singleton] at hr
      rcases hr with element | rfl
      · cases e <;> simp only [Element.type?, Option.toList, List.mem_singleton, List.not_mem_nil] at element
        exact .inl (operands d hd k hk m r (element ▸ ha))
      · exact .inr (mem_uses.mpr ⟨d, hd, k, hk, m, e, ha, rfl⟩)

end Table

section Annotations

def texted (annotations : List (String × Json)) : List (Json × Json) :=
  annotations.map fun (key, value) => (.text key, value)

theorem mapM_texted : (texted texts).mapM annotationOf = (texts.forM checkAnnotation).map fun _ => texts := by
  induction texts
  case nil            => rfl
  case cons a rest hi =>
    have first : annotationOf (.text a.1, a.2) = ( checkAnnotation a).map fun _ => a := rfl
    have both : (a :: rest).forM checkAnnotation = ( checkAnnotation a >>= fun _ => rest.forM checkAnnotation) := rfl
    rw [texted] at hi
    rw [texted, List.map_cons, List.mapM_cons, first, hi, both]
    cases checkAnnotation a <;> cases rest.forM checkAnnotation <;> rfl

-- With texts for keys, annotations are checked as they are in a list of them.
theorem ofMapping_texted : ofMapping entries (texted texts) = ofDeclarations entries texts := by
  rw [ofMapping, mapM_texted, ofDeclarations, ofDeclarations]
  split
  case isTrue  => rfl
  case isFalse =>
    simp only [bind_assoc]
    refine bind_congr fun ds => bind_congr fun _ => bind_congr fun _ => bind_congr fun _ => ?_
    cases texts.forM checkAnnotation <;> rfl

theorem texted_of_mapM (h : annotations.mapM annotationOf = .ok texts) : annotations = texted texts := by
  have keys {entry : Json × Json} {a : String × Json} (h : annotationOf entry = .ok a) : entry = (.text a.1, a.2) := by
    obtain ⟨key, value⟩ := entry
    cases key <;> simp only [annotationOf, reduceCtorEq] at h
    case text key =>
      cases checked : checkAnnotation (key, value) <;> rw [checked] at h <;> cases h
      rfl
  have pairs := Checks.mapM_eq_ok.mp h
  clear h
  induction pairs
  case nil             => rfl
  case cons first _ hi => rw [keys first, hi, texted, texted, List.map_cons]

theorem ofMapping_eq_ok : ofMapping entries annotations = .ok s ↔
    ∃ texts, annotations = texted texts ∧ ofDeclarations entries texts = .ok s := by
  constructor
  · intro h
    obtain ⟨_, _, later⟩ := Checks.bind_eq_ok.mp h
    obtain ⟨texts, read, _⟩ := Checks.bind_eq_ok.mp later
    obtain rfl := texted_of_mapM read
    exact ⟨texts, rfl, ofMapping_texted.symm.trans h⟩
  · rintro ⟨texts, rfl, h⟩
    exact ofMapping_texted.trans h

theorem checkAnnotation_eq_ok {a : String × Json} : checkAnnotation a = .ok () ↔ a.2.IsScalar := by
  obtain ⟨key, value⟩ := a
  cases value <;> simp [ checkAnnotation, Json.IsScalar]

theorem fails_annotationOf (entry : Json × Json) : Checks.Fails Failure.IsModel (annotationOf entry) := by
  unfold annotationOf
  split
  case h_1 => exact .map ( fails_checkAnnotation _)
  case h_2 => exact .error (Failure.isModel_malformed _)

theorem fails_ofMapping (entries : List (Except Json Declaration)) (annotations : List (Json × Json)) :
    Checks.Fails Failure.IsModel (ofMapping entries annotations) :=
  .bind (fails_ofDeclarations _ _) fun _ => .bind (.mapM fun e _ => fails_annotationOf e) fun _ => .ok _

end Annotations

theorem plain_iff {d : Declaration} : d.isPlain = true ↔ d.kind = .text "plain" := by
  rw [Declaration.isPlain]
  split
  case h_1 kind => simp [kind]
  case h_2 other => simpa using fun h => other _ h

theorem acceptable_iff : Acceptable ds texts ↔ Admissible ds (texted texts) := by
  constructor
  · intro h
    exact {
      nonempty     := h.nonempty
      names        := h.names
      plain        := fun d hd => plain_iff.mp (h.plain d hd)
      inhabited    := fun d hd => ⟨h.inhabited d hd, h.proper d hd⟩
      operands     := h.operands
      fresh        := fun name used => by
        obtain ⟨t, ht, rfl⟩ := List.mem_map.mp (mem_names_auxiliaries.mpr used)
        exact h.fresh t ht
      constructors := constructorNames_ofTable.nodup_iff.mp h.constructors
      references   := fun d hd c hc T hT => by
        refine mem_names_ofTable.mp (h.refs (declaredType d) ?_ c.desugar (List.mem_map_of_mem hc) T ?_)
        · exact List.mem_append_left _ (List.mem_map_of_mem hd)
        · exact List.mem_filterMap.mpr ⟨_, List.mem_map_of_mem hT, rfl⟩
      annotations  := List.forall_mem_map.mpr fun a ha => ⟨⟨_, rfl⟩, checkAnnotation_eq_ok.mp (h.annotations a ha)⟩ }
  · intro h
    exact {
      nonempty     := h.nonempty
      names        := h.names
      plain        := fun d hd => plain_iff.mpr (h.plain d hd)
      inhabited    := fun d hd => (h.inhabited d hd).1
      proper       := fun d hd => (h.inhabited d hd).2
      operands     := h.operands
      fresh        := fun t ht => h.fresh _ (mem_names_auxiliaries.mp (List.mem_map_of_mem ht))
      constructors := constructorNames_ofTable.nodup_iff.mpr h.constructors
      refs         := fun t ht c hc r hr => mem_names_ofTable.mpr (mem_names_of_ref h.operands h.references ht hc hr)
      annotations  := fun a ha => checkAnnotation_eq_ok.mpr (List.forall_mem_map.mp h.annotations a ha).2 }

theorem exists_texted (h : ∀ e ∈ annotations, (∃ key, e.1 = .text key) ∧ e.2.IsScalar) :
    ∃ texts, annotations = texted texts := by
  have keys : annotations ∈ Set.range (List.map fun (a : String × Json) => (Json.text a.1, a.2)) := by
    rw [Set.range_list_map]
    intro e he
    have ⟨⟨key, hk⟩, _⟩ := h e he
    exact ⟨(key, e.2), Prod.ext hk.symm rfl⟩
  have ⟨texts, he⟩ := keys
  exact ⟨texts, he.symm⟩

-- Declarations make a system exactly if they are admissible, and all others are a fault of the model.
theorem ofMapping_admits (entries : List (Except Json Declaration)) (annotations : List (Json × Json)) :
    ((∃ s, ofMapping entries annotations = .ok s) ↔ ∃ ds, entries = ds.map .ok ∧ Admissible ds annotations) ∧
    ((¬∃ ds, entries = ds.map .ok ∧ Admissible ds annotations) →
      ∃ fault, ofMapping entries annotations = .error (.model fault)) := by
  have admitted : (∃ s, ofMapping entries annotations = .ok s) ↔
      ∃ ds, entries = ds.map .ok ∧ Admissible ds annotations := by
    simp only [ofMapping_eq_ok, ofDeclarations_eq_ok, acceptable_iff]
    constructor
    · rintro ⟨_, texts, rfl, ds, rfl, admissible, _⟩
      exact ⟨ds, rfl, admissible⟩
    · rintro ⟨ds, rfl, admissible⟩
      obtain ⟨texts, rfl⟩ := exists_texted admissible.annotations
      exact ⟨_, texts, rfl, ds, rfl, admissible, rfl⟩
  refine ⟨admitted, fun refused => ?_⟩
  cases result : ofMapping entries annotations
  case ok s    => exact absurd (admitted.mp ⟨s, result⟩) refused
  case error f =>
    obtain ⟨fault, rfl⟩ := fails_ofMapping entries annotations f result
    exact ⟨fault, rfl⟩

-- A constructor may not be named after one of an auxiliary type that an argument of its own brings about.
example :
    let c : Constructor Arg := ⟨"Seq(T).Nil", [.many .sequence (.ref "T")], 1, isWeight_one⟩
    ofMapping [.ok ⟨"T", [.ok c], .text "plain", none, 0⟩] [] =
      .error (.model (.duplicate .constructor "Seq(T).Nil")) := rfl

end Specification

end BoltzmannSampling
