import Mathlib
import BoltzmannSampling.Proofs.Assoc
import BoltzmannSampling.Proofs.Derivation.WellFounded
import BoltzmannSampling.Proofs.Specification.Acceptance
import BoltzmannSampling.Specification.Document

/-!
Systems written and read again. Whatever document a system comes from, its own document is accepted, and gives the
same initial type, declared types and annotations, the same auxiliary types and the same document. A reference to an
auxiliary type is written as the modifier of that type, also where the first document named the type itself, so that
the modifiers read back are those that the table has types for.
-/

namespace BoltzmannSampling

namespace Symbol

theorem element?_eq_some {x : Symbol} {e : Element} : x.element? = some e ↔ x = e.symbol := by
  cases x <;> cases e <;> simp [element?, Element.symbol]

-- What a document can say: the texts of the unit atom and of the unit of size zero are no references.
def Written : Symbol → Prop
  | ref t => t ≠ "@" ∧ t ≠ "_"
  | _     => True

theorem ofJson_toJson {x : Symbol} (h : x.Written) : Arg.ofJson x.toJson = .ok (.plain x) := by
  cases x
  case ref t   => simp [toJson, Arg.ofJson, h.1, h.2]
  case epsilon => simp [toJson, Arg.ofJson]
  case atom a =>
    obtain ⟨n, hn⟩ := a
    by_cases unit : n = 1
    case pos =>
      subst unit
      simp [toJson, Atom.toJson, Arg.ofJson, Atom.unit]
    case neg =>
      have size : Atom.ofSize (.nat n) = .ok ⟨n, hn⟩ := by simp [Json.nat, Atom.ofSize, hn]
      rw [toJson, Atom.toJson, if_neg unit, Arg.ofJson]
      simp [Assoc.ofFields, Assoc.put, size, Except.map]

end Symbol

namespace Arg

def Written : Arg → Prop
  | plain x  => x.Written
  | many _ e => e.symbol.Written

theorem ofModifier_eq_ok {m : Modifier} {operand a : Arg} :
    ofModifier m (.ok operand) = .ok a ↔ ∃ e, operand = .plain e.symbol ∧ a = .many m e := by
  cases operand
  case many    => simp [ofModifier, ofEntry, symbol?, bind, Except.bind]
  case plain x =>
    simp only [ofModifier, ofEntry, symbol?, bind, Except.bind, Option.bind_some, plain.injEq,
      ← Symbol.element?_eq_some]
    cases x.element? <;> simp [eq_comm]

-- An object of one field.
theorem ofJson_single {fields : List (String × Json)} {name : String} {value : Json}
    (h : Assoc.ofFields fields = [(name, value)]) : ofJson (.object fields) =
      if name = "atom" then (Atom.ofSize value).map fun a => .plain (.atom a)
      else if name = "seq" then ofJson value >>= fun o => ofModifier .sequence (.ok o)
      else if name = "set" then ofJson value >>= fun o => ofModifier .set (.ok o)
      else .error (.malformed (.argumentDocument (.object fields))) := by
  rw [ofJson]
  split
  case h_1 hf =>
    obtain ⟨rfl, rfl⟩ : _ = name ∧ _ = value := by simpa using hf.symm.trans h
    rfl
  case h_2 hf => exact (hf _ _ h).elim

theorem ofJson_toJson {a : Arg} (h : a.Written) : ofJson a.toJson = .ok a := by
  cases a
  case plain x  => exact Symbol.ofJson_toJson h
  case many m e =>
    have operand : ofJson e.symbol.toJson = .ok (.plain e.symbol) := Symbol.ofJson_toJson h
    have modified : ofModifier m (.ok (.plain e.symbol)) = .ok (.many m e) := ofModifier_eq_ok.mpr ⟨e, rfl, rfl⟩
    rw [toJson, ofJson_single rfl]
    cases m
    case sequence => simp [Modifier.field, operand, modified, bind, Except.bind]
    case set      => simp [Modifier.field, operand, modified, bind, Except.bind]

theorem written_of_ofModifier {m : Modifier} {operand : Except Failure Arg} {a : Arg}
    (h : (operand >>= fun o => ofModifier m (.ok o)) = .ok a) (ho : ∀ {o}, operand = .ok o → o.Written) :
    a.Written := by
  obtain ⟨o, hv, hm⟩ := Checks.bind_eq_ok.mp h
  obtain ⟨e, rfl, rfl⟩ := ofModifier_eq_ok.mp hm
  have he : (plain e.symbol).Written := ho hv
  exact he

theorem written_of_ofJson {doc : Json} {a : Arg} (h : ofJson doc = .ok a) : a.Written := by
  induction doc using ofJson.induct generalizing a
  case case1 t =>
    simp only [ofJson, Except.ok.injEq] at h
    subst h
    split_ifs
    case pos => trivial
    case pos => trivial
    case neg ha he => exact ⟨ha, he⟩
  case case2 value hf =>
    simp only [ofJson_single hf, if_true] at h
    cases hs : Atom.ofSize value <;> simp only [hs, Except.map, reduceCtorEq, Except.ok.injEq] at h
    exact h ▸ trivial
  case case3 hf _ hi => exact written_of_ofModifier (by simpa [ofJson_single hf] using h) hi
  case case4 hf _ _ hi => exact written_of_ofModifier (by simpa [ofJson_single hf] using h) hi
  case case5 hf ha hs ht => simp [ofJson_single hf, ha, hs, ht] at h
  case case6 hf =>
    rw [ofJson] at h
    split at h
    case h_1 hs => exact (hf _ _ hs).elim
    case h_2    => cases h
  case case7 ht ho =>
    rw [ofJson] at h
    · cases h
    · exact ht
    · exact ho

end Arg

namespace Constructor

theorem mapM_ofEntry (args : List Arg) : (args.map Except.ok).mapM Arg.ofEntry = .ok args :=
  Checks.mapM_eq_ok.mpr <| List.forall₂_map_left_iff.mpr <| List.forall₂_same.mpr fun _ _ => rfl

theorem declare_eq_ok {name weight : Json} {args : List Arg} {c : Constructor Arg} :
    declare name (args.map .ok) weight = .ok c ↔ name = .text c.name ∧ c.name ≠ "" ∧ c.args = args ∧
      weightOf c.name weight = .ok ⟨c.weight, c.positive⟩ := by
  cases name <;> simp only [declare, reduceCtorEq, false_and, Json.text.injEq]
  case text n =>
    by_cases hn : n = ""
    case pos =>
      simp only [hn, String.isEmpty_iff, if_true, reduceCtorEq, false_iff]
      rintro ⟨he, hc, -⟩
      exact hc he.symm
    case neg =>
      simp only [String.isEmpty_iff, hn, if_false, mapM_ofEntry, Checks.bind_eq_ok, Except.ok.injEq]
      constructor
      · rintro ⟨_, rfl, w, hw, rfl⟩
        exact ⟨rfl, hn, rfl, hw⟩
      · rintro ⟨rfl, -, ha, hw⟩
        exact ⟨args, rfl, _, hw, by rw [← ha]⟩

theorem weightOf_float {name : String} {w : Float} (h : isWeight w = true) :
    weightOf name (.float w) = .ok ⟨w, h⟩ := by
  simp [weightOf, Json.float, Number.toFloat?, h]

end Constructor

namespace Declaration

theorem proper_ok (name : String) (cs : List (Constructor Arg)) (kind : Json) (element : Option String) (size : Nat) :
    proper ⟨name, cs.map .ok, kind, element, size⟩ = cs := by
  rw [proper, List.filterMap_map]
  exact List.filterMap_some

theorem named_eq_ok {name : Json} {entries : List (Except Json (Constructor Arg))} {d : Declaration} :
    named name entries = .ok d ↔ name = .text d.name ∧ d.name ≠ "" ∧ d = ⟨d.name, entries, .text "plain", none, 0⟩ := by
  cases name <;> simp only [named, reduceCtorEq, false_and, Json.text.injEq]
  case text n =>
    by_cases hn : n = ""
    case pos =>
      simp only [hn, String.isEmpty_iff, if_true, reduceCtorEq, false_iff]
      rintro ⟨he, hc, -⟩
      exact hc he.symm
    case neg =>
      simp only [String.isEmpty_iff, hn, if_false, Except.ok.injEq]
      constructor
      · rintro rfl
        exact ⟨rfl, hn, rfl⟩
      · rintro ⟨rfl, -, hd⟩
        exact hd.symm

end Declaration

namespace Specification

variable {s : Specification} {m : Modifier} {e : Element} {t : TypeDef} {c : Constructor Symbol}

theorem isAuxiliary_of_mem_auxiliaries {ds : List Declaration} (h : t ∈ auxiliaries ds) : t.isAuxiliary = true := by
  obtain ⟨-, -, -, -, m, e, -, rfl⟩ := mem_auxiliaries h
  rfl

theorem userTypes_ofTable (ds : List Declaration) (annotations : List (String × Json)) :
    (ofTable ds annotations).userTypes = ds.map declaredType := by
  have declared : (ds.map declaredType).filter (!·.isAuxiliary) = ds.map declaredType :=
    List.filter_eq_self.mpr <| List.forall_mem_map.mpr fun _ _ => rfl
  have others : (auxiliaries ds).filter (!·.isAuxiliary) = [] :=
    List.filter_eq_nil_iff.mpr fun t ht => by simp [isAuxiliary_of_mem_auxiliaries ht]
  rw [userTypes, ofTable, table, List.filter_append, declared, others, List.append_nil]

theorem exists_many {ds : List Declaration} (h : .auxiliary m e ∈ table ds) :
    ∃ d ∈ ds, ∃ c ∈ d.proper, .many m e ∈ c.args := by
  rcases List.mem_append.mp h with h | h
  · obtain ⟨d, -, hd⟩ := List.mem_map.mp h
    cases congrArg TypeDef.origin hd
  · obtain ⟨d, hd, c, hc, m', e', ha, he⟩ := mem_auxiliaries h
    cases congrArg TypeDef.origin he
    exact ⟨d, hd, c, hc, ha⟩

theorem exists_firstOfEachName {ts : List TypeDef} (h : t ∈ ts) : ∃ u ∈ firstOfEachName ts, u.name = t.name := by
  induction ts
  case nil => cases h
  case cons u ts hi =>
    rw [firstOfEachName]
    by_cases hn : u.name = t.name
    case pos => exact ⟨u, List.mem_cons_self, hn⟩
    case neg =>
      obtain ⟨v, hv, hvn⟩ := hi <| (List.mem_cons.mp h).resolve_left fun he => hn (he ▸ rfl)
      exact ⟨v, List.mem_cons_of_mem _ <| List.mem_filter.mpr ⟨hv, by simp [hvn, Ne.symm hn]⟩, hvn⟩

theorem exists_auxiliary {ds : List Declaration} {d : Declaration} (hd : d ∈ ds) {c : Constructor Arg}
    (hc : c ∈ d.proper) (ha : .many m e ∈ c.args) : ∃ u ∈ auxiliaries ds, u.name = TypeDef.auxiliaryName m e :=
  exists_firstOfEachName (t := .auxiliary m e) <| List.mem_flatMap.mpr ⟨d, hd, List.mem_flatMap.mpr
    ⟨c, hc, List.mem_filterMap.mpr ⟨_, ha, rfl⟩⟩⟩

namespace Resolved

theorem surface_auxiliary (h : s.Resolved) (haux : .auxiliary m e ∈ s.types) :
    s.surface (.ref (TypeDef.auxiliaryName m e)) = .many m e := by
  have found : s.type? (TypeDef.auxiliaryName m e) = some (.auxiliary m e) := h.type?_eq haux
  simp only [surface, found, TypeDef.auxiliary]

theorem surface_cases (h : s.Resolved) (x : Symbol) : s.surface x = .plain x ∨
    ∃ m e, .auxiliary m e ∈ s.types ∧ x = .ref (TypeDef.auxiliaryName m e) ∧ s.surface x = .many m e := by
  cases x
  case atom | epsilon => exact .inl rfl
  case ref name =>
    simp only [surface]
    split
    case h_2 => exact .inl rfl
    case h_1 n cs m e found =>
      have ht := List.mem_of_find?_eq_some found
      have hn : n = name := by simpa using List.find?_some found
      have he := h.auxiliary _ ht m e rfl
      refine .inr ⟨m, e, he ▸ ht, ?_, rfl⟩
      rw [← hn]
      exact congrArg Symbol.ref <| congrArg TypeDef.name he

theorem desugar_surface (h : s.Resolved) (x : Symbol) : (s.surface x).desugar = x := by
  rcases h.surface_cases x with hx | ⟨m, e, -, hn, hx⟩
  · rw [hx, Arg.desugar]
  · rw [hx, Arg.desugar, hn]

theorem mem_of_surface (h : s.Resolved) {x : Symbol} (hx : s.surface x = .many m e) : .auxiliary m e ∈ s.types := by
  rcases h.surface_cases x with hp | ⟨m', e', ht, -, hm⟩
  · simp [hp] at hx
  · cases hm.symm.trans hx
    exact ht

-- Tables of the same types find the same types.
theorem type?_perm {s' : Specification} (h : s'.Resolved) (same : s'.types.Perm s.types)
    (name : String) : s'.type? name = s.type? name := by
  cases found : s.type? name
  case some t =>
    have hn : t.name = name := by simpa using List.find?_some found
    exact hn ▸ h.type?_eq (same.mem_iff.mpr <| List.mem_of_find?_eq_some found)
  case none =>
    rw [type?, List.find?_eq_none] at found ⊢
    exact fun t ht => found t (same.mem_iff.mp ht)

end Resolved

-- What the document that a system comes from leaves in it.
structure Documented (s : Specification) : Prop where
  initial      : s.initial = ((s.userTypes.map TypeDef.name).head?).getD ""
  nonempty     : s.userTypes ≠ []
  types        : ∀ t ∈ s.userTypes, t.origin = .declared none 0 ∧ t.name ≠ "" ∧ t.constructors ≠ []
  constructors : ∀ t ∈ s.userTypes, ∀ c ∈ t.constructors, c.name ≠ "" ∧ ∀ x ∈ c.args, (s.surface x).Written
  used         : ∀ m e, .auxiliary m e ∈ s.types →
    ∃ t ∈ s.userTypes, ∃ c ∈ t.constructors, .ref (TypeDef.auxiliaryName m e) ∈ c.args
  annotations  : ∀ entry ∈ s.annotations, checkAnnotation entry = .ok ()
  keys         : (s.annotations.map (·.1)).Nodup

-- What a document gives of a type: its name, no element, and constructors made of what it can say.
structure Stated (d : Declaration) : Prop where
  named        : d.name ≠ ""
  element      : d.element = none
  elementSize  : d.elementSize = 0
  constructors : ∀ c ∈ d.proper, c.name ≠ "" ∧ ∀ a ∈ c.args, a.Written

section Reading

variable {ds : List Declaration} {annotations : List (String × Json)}

theorem constructorOfJson_ok {typeName doc : Json} {c : Constructor Arg} (h : constructorOfJson typeName doc = .ok c) :
    c.name ≠ "" ∧ ∀ a ∈ c.args, a.Written := by
  simp only [constructorOfJson] at h
  split at h
  case h_1 => cases h
  case h_2 =>
    obtain ⟨docs, -, h⟩ := Checks.bind_eq_ok.mp h
    obtain ⟨args, hd, h⟩ := Checks.bind_eq_ok.mp h
    obtain ⟨-, hn, rfl, -⟩ := Constructor.declare_eq_ok.mp h
    refine ⟨hn, fun a ha => ?_⟩
    have ⟨_, _, hw⟩ := Checks.exists_of_mapM hd ha
    exact Arg.written_of_ofJson hw

theorem declarationOfJson_ok {doc : Json} {d : Declaration} (h : declarationOfJson doc = .ok d) : Stated d := by
  simp only [declarationOfJson] at h
  split at h
  case h_1 => cases h
  case h_2 =>
    obtain ⟨docs, -, h⟩ := Checks.bind_eq_ok.mp h
    obtain ⟨cs, hd, h⟩ := Checks.bind_eq_ok.mp h
    obtain ⟨-, hn, he⟩ := Declaration.named_eq_ok.mp h
    refine ⟨hn, congrArg Declaration.element he, congrArg Declaration.elementSize he, fun c hc => ?_⟩
    have hp : d.proper = cs := by rw [he, Declaration.proper_ok]
    have ⟨_, _, hr⟩ := Checks.exists_of_mapM hd (hp ▸ hc)
    exact constructorOfJson_ok hr

theorem nodup_annotationsOfJson {doc : Json} {annotations : List (String × Json)}
    (h : annotationsOfJson doc = .ok annotations) : (annotations.map (·.1)).Nodup := by
  simp only [annotationsOfJson] at h
  split at h
  case h_1 =>
    cases h
    exact List.nodup_nil
  case h_2 found _ =>
    split at h
    case isTrue =>
      cases h
      exact List.nodup_nil
    case isFalse =>
      cases found <;> simp only [Json.entries?, reduceCtorEq, Except.ok.injEq] at h
      exact h ▸ Assoc.ofFields_nodup _

theorem written_many (stated : ∀ d ∈ ds, Stated d) (haux : .auxiliary m e ∈ table ds) : (Arg.many m e).Written := by
  obtain ⟨d, hd, c, hc, ha⟩ := exists_many haux
  exact ((stated d hd).constructors c hc).2 _ ha

-- An argument is written as it was, unless it is a reference to an auxiliary type.
theorem written_surface (stated : ∀ d ∈ ds, Stated d) (resolved : (ofTable ds annotations).Resolved)
    {d : Declaration} (hd : d ∈ ds) {c : Constructor Arg} (hc : c ∈ d.proper) {a : Arg} (ha : a ∈ c.args) :
    ((ofTable ds annotations).surface a.desugar).Written := by
  cases a
  case plain x =>
    have written : (Arg.plain x).Written := ((stated d hd).constructors c hc).2 _ ha
    rw [Arg.desugar]
    rcases resolved.surface_cases x with hx | ⟨m, e, haux, -, hx⟩
    · rwa [hx]
    · rw [hx]
      exact written_many stated haux
  case many m e =>
    obtain ⟨u, hu, hn⟩ := exists_auxiliary hd hc ha
    obtain ⟨-, -, -, -, m', e', -, rfl⟩ := mem_auxiliaries hu
    have haux : .auxiliary m' e' ∈ table ds := List.mem_append_right _ hu
    rw [Arg.desugar, ← hn]
    exact resolved.surface_auxiliary haux ▸ written_many stated haux

theorem documented_ofTable (stated : ∀ d ∈ ds, Stated d) (resolved : (ofTable ds annotations).Resolved)
    (accepted : Acceptable ds annotations) (keys : (annotations.map (·.1)).Nodup) :
    (ofTable ds annotations).Documented := by
  refine ⟨?initial, ?nonempty, ?types, ?constructors, ?used, accepted.annotations, keys⟩
  all_goals rw [userTypes_ofTable]
  case initial =>
    rw [List.map_map]
    rfl
  case nonempty => simpa using accepted.nonempty
  case types =>
    refine List.forall_mem_map.mpr fun d hd => ⟨?_, (stated d hd).named, ?_⟩
    · rw [declaredType, (stated d hd).element, (stated d hd).elementSize]
    · have inhabited := accepted.inhabited d hd
      rw [accepted.proper d hd] at inhabited
      simpa [declaredType] using inhabited
  case constructors =>
    refine List.forall_mem_map.mpr fun d hd => List.forall_mem_map.mpr fun c hc => ?_
    have named : c.name ≠ "" := ((stated d hd).constructors c hc).1
    exact ⟨named, List.forall_mem_map.mpr fun a ha => written_surface stated resolved hd hc ha⟩
  case used =>
    intro m e haux
    obtain ⟨d, hd, c, hc, ha⟩ := exists_many haux
    exact ⟨_, List.mem_map_of_mem hd, _, List.mem_map_of_mem hc, List.mem_map_of_mem ha⟩

theorem documented {doc : Json} (h : ofJson doc = .ok s) : s.Resolved ∧ s.Documented := by
  simp only [ofJson] at h
  split at h
  case h_1 => cases h
  case h_2 types _ =>
    simp only [Checks.bind_eq_ok] at h
    obtain ⟨declarations, hd, annotations, ha, h⟩ := h
    have resolved := resolved h
    obtain ⟨ds, hds, accepted, rfl⟩ := ofDeclarations_eq_ok.mp h
    obtain rfl : declarations = ds := List.map_injective_iff.mpr (fun _ _ h => by simpa using h) hds
    have stated : ∀ d ∈ declarations, Stated d := fun d hm =>
      have ⟨_, _, hr⟩ := Checks.exists_of_mapM hd hm
      declarationOfJson_ok hr
    exact ⟨resolved, documented_ofTable stated resolved accepted (nodup_annotationsOfJson ha)⟩

end Reading

-- The declarations that the document of a system gives.
def surfaced (s : Specification) (c : Constructor Symbol) : Constructor Arg :=
  ⟨c.name, c.args.map s.surface, c.weight, c.positive⟩

def declaration (s : Specification) (t : TypeDef) : Declaration :=
  ⟨t.name, (t.constructors.map s.surfaced).map .ok, .text "plain", none, 0⟩

def declarations (s : Specification) : List Declaration :=
  s.userTypes.map s.declaration

section Writing

def typeDocument (s : Specification) (t : TypeDef) : Json :=
  .object [("name", .text t.name),
    ("constructors", .array (t.constructors.map fun c => .object (s.constructorFields c)))]

theorem proper_declaration (s : Specification) (t : TypeDef) :
    (s.declaration t).proper = t.constructors.map s.surfaced :=
  Declaration.proper_ok ..

theorem mapM_surface {args : List Symbol} (h : ∀ x ∈ args, (s.surface x).Written) :
    (args.map fun x => (s.surface x).toJson).mapM Arg.ofJson = .ok (args.map s.surface) :=
  Checks.mapM_eq_ok.mpr <| List.forall₂_map_left_iff.mpr <| List.forall₂_map_right_iff.mpr <|
    List.forall₂_same.mpr fun x hx => Arg.ofJson_toJson (h x hx)

theorem constructorOfJson_surfaced {typeName : Json} (hn : c.name ≠ "") (hw : ∀ x ∈ c.args, (s.surface x).Written) :
    constructorOfJson typeName (.object (s.constructorFields c)) = .ok (s.surfaced c) := by
  have name : (Json.object (s.constructorFields c)).get? "name" = some (.text c.name) := rfl
  have parts : partsOf (.object (s.constructorFields c)) "args" = .ok (c.args.map fun x => (s.surface x).toJson) := rfl
  have weight : (Json.object (s.constructorFields c)).get? "weight" = some (.float c.weight) := rfl
  rw [constructorOfJson, name]
  refine Checks.bind_eq_ok.mpr ⟨_, parts, Checks.bind_eq_ok.mpr ⟨_, mapM_surface hw, ?_⟩⟩
  rw [weight]
  exact Constructor.declare_eq_ok.mpr ⟨rfl, hn, rfl, Constructor.weightOf_float c.positive⟩

theorem declarationOfJson_declaration (hn : t.name ≠ "")
    (hc : ∀ c ∈ t.constructors, c.name ≠ "" ∧ ∀ x ∈ c.args, (s.surface x).Written) :
    declarationOfJson (s.typeDocument t) = .ok (s.declaration t) := by
  have constructors : (t.constructors.map fun c => Json.object (s.constructorFields c)).mapM
      (constructorOfJson (.text t.name)) = .ok (t.constructors.map s.surfaced) :=
    Checks.mapM_eq_ok.mpr <| List.forall₂_map_left_iff.mpr <| List.forall₂_map_right_iff.mpr <|
      List.forall₂_same.mpr fun c h => constructorOfJson_surfaced (hc c h).1 (hc c h).2
  exact Checks.bind_eq_ok.mpr ⟨_, rfl, Checks.bind_eq_ok.mpr ⟨_, constructors,
    Declaration.named_eq_ok.mpr ⟨rfl, hn, rfl⟩⟩⟩

theorem ofJson_toJson_eq (h : s.Documented) :
    ofJson s.toJson = ofDeclarations (s.declarations.map .ok) s.annotations := by
  have types : (s.userTypes.map s.typeDocument).mapM declarationOfJson = .ok s.declarations :=
    Checks.mapM_eq_ok.mpr <| List.forall₂_map_left_iff.mpr <| List.forall₂_map_right_iff.mpr <|
      List.forall₂_same.mpr fun t ht => declarationOfJson_declaration (h.types t ht).2.1 (h.constructors t ht)
  have annotations : annotationsOfJson s.toJson = .ok s.annotations := by
    have found : s.toJson.get? "annotations" = some (.object s.annotations) := rfl
    simp only [annotationsOfJson, found, Json.isBlank, Json.entries?, Assoc.ofFields_of_nodup h.keys]
    split
    case isTrue he => rw [List.isEmpty_iff.mp he]
    case isFalse   => rfl
  have found : (s.toJson.get? "types").bind Json.array? = some (s.userTypes.map s.typeDocument) := rfl
  rw [ofJson, found]
  simp only [types, annotations, bind, Except.bind]

end Writing

namespace Resolved

-- The types that the declarations of a system make are those of the system.
theorem declaredType_declaration (h : s.Resolved) (ho : t.origin = .declared none 0) :
    declaredType (s.declaration t) = t := by
  have same (c : Constructor Symbol) : (s.surfaced c).desugar = c := by
    simp [Constructor.desugar, surfaced, h.desugar_surface, Function.comp_def]
  rw [declaredType, proper_declaration, List.map_map]
  simp only [Function.comp_def, same, List.map_id']
  cases t
  cases ho
  rfl

theorem map_declaredType (h : s.Resolved) (hd : s.Documented) : s.declarations.map declaredType = s.userTypes := by
  rw [declarations, List.map_map]
  exact (List.map_congr_left fun t ht => h.declaredType_declaration (hd.types t ht).1).trans <| List.map_id' _

theorem mem_auxiliaries_declarations (h : s.Resolved) (hd : s.Documented) :
    t ∈ auxiliaries s.declarations ↔ t ∈ s.types ∧ t.isAuxiliary = true := by
  have sound {t} (ht : t ∈ auxiliaries s.declarations) : t ∈ s.types := by
    obtain ⟨d, hm, c, hc, m, e, ha, rfl⟩ := mem_auxiliaries ht
    obtain ⟨u, -, rfl⟩ := List.mem_map.mp hm
    rw [proper_declaration] at hc
    obtain ⟨c, -, rfl⟩ := List.mem_map.mp hc
    obtain ⟨x, -, hx⟩ := List.mem_map.mp ha
    exact h.mem_of_surface hx
  refine ⟨fun ht => ⟨sound ht, isAuxiliary_of_mem_auxiliaries ht⟩, fun ⟨ht, haux⟩ => ?_⟩
  obtain ⟨name, cs, _ | ⟨m, e⟩⟩ := t
  · cases haux
  · have he := h.auxiliary _ ht m e rfl
    rw [he] at ht ⊢
    obtain ⟨u, hu, c, hc, hr⟩ := hd.used m e ht
    have many : .many m e ∈ (s.surfaced c).args := List.mem_map.mpr ⟨_, hr, h.surface_auxiliary ht⟩
    have proper : s.surfaced c ∈ (s.declaration u).proper := proper_declaration s u ▸ List.mem_map_of_mem hc
    obtain ⟨v, hv, hn⟩ := exists_auxiliary (List.mem_map_of_mem hu) proper many
    exact h.type_unique (sound hv) ht hn ▸ hv

theorem table_declarations (h : s.Resolved) (hd : s.Documented) : (table s.declarations).Perm s.types := by
  have auxiliaries : (auxiliaries s.declarations).Perm (s.types.filter (·.isAuxiliary)) :=
    (List.perm_ext_iff_of_nodup (firstOfEachName_nodup _).of_map (h.names.of_map.filter _)).mpr fun _ =>
      (h.mem_auxiliaries_declarations hd).trans List.mem_filter.symm
  rw [table, h.map_declaredType hd, userTypes]
  exact ((auxiliaries.append_left _).trans List.perm_append_comm).trans (List.filter_append_perm _ _)

theorem acceptable (h : s.Resolved) (hd : s.Documented) : Acceptable s.declarations s.annotations := by
  have names : s.declarations.map Declaration.name = s.userTypes.map TypeDef.name := by
    rw [declarations, List.map_map]
    rfl
  have same := h.table_declarations hd
  have productions : (ofTable s.declarations s.annotations).productions.Perm s.productions := same.flatMap_right _
  refine ⟨?nonempty, ?names, ?plain, ?inhabited, ?proper, ?operands, ?fresh, ?constructors, ?refs, hd.annotations⟩
  case nonempty     => simpa [declarations] using hd.nonempty
  case names        => exact names ▸ h.names.sublist (List.filter_sublist.map _)
  case plain        => exact List.forall_mem_map.mpr fun _ _ => rfl
  case inhabited    => exact List.forall_mem_map.mpr fun t ht => by simpa [declaration] using (hd.types t ht).2.2
  case proper       => exact List.forall_mem_map.mpr fun t _ => congrArg _ (proper_declaration s t).symm
  case operands     =>
    refine List.forall_mem_map.mpr fun t _ c hc m name ha => ?_
    rw [proper_declaration] at hc
    obtain ⟨c, -, rfl⟩ := List.mem_map.mp hc
    obtain ⟨x, -, hx⟩ := List.mem_map.mp ha
    obtain ⟨u, hu, rfl⟩ := h.element m name (h.mem_of_surface hx)
    exact names ▸ List.mem_map_of_mem hu
  case fresh        =>
    intro t ht hn
    obtain ⟨ht, haux⟩ := (h.mem_auxiliaries_declarations hd).mp ht
    rw [names] at hn
    obtain ⟨u, hu, hn⟩ := List.mem_map.mp hn
    obtain ⟨hu, hdecl⟩ := List.mem_filter.mp hu
    rw [h.type_unique hu ht hn, haux] at hdecl
    cases hdecl
  case constructors => exact (productions.map _).nodup_iff.mpr h.constructors
  case refs         =>
    exact fun t ht c hc r hr => (same.map TypeDef.name).mem_iff.mpr <| h.refs t (same.mem_iff.mp ht) c hc r hr

end Resolved

-- A system read from a document, written and read again.
theorem ofJson_written {doc : Json} (h : ofJson doc = .ok s) :
    ∃ s', ofJson s.toJson = .ok s' ∧ s'.initial = s.initial ∧ s'.userTypes = s.userTypes ∧
      (s'.types.filter TypeDef.isAuxiliary).Perm (s.types.filter TypeDef.isAuxiliary) ∧
      s'.annotations = s.annotations ∧ s'.toJson = s.toJson := by
  obtain ⟨hr, hd⟩ := documented h
  have accepted : ofDeclarations (s.declarations.map .ok) s.annotations = .ok (ofTable s.declarations s.annotations) :=
    ofDeclarations_eq_ok.mpr ⟨_, rfl, hr.acceptable hd, rfl⟩
  have users : (ofTable s.declarations s.annotations).userTypes = s.userTypes := by
    rw [userTypes_ofTable, hr.map_declaredType hd]
  have same : (ofTable s.declarations s.annotations).types.Perm s.types := hr.table_declarations hd
  have surface : (ofTable s.declarations s.annotations).surface = s.surface := by
    funext x
    cases x <;> simp only [Specification.surface, (resolved accepted).type?_perm same]
  refine ⟨_, (ofJson_toJson_eq hd).trans accepted, ?_, users, same.filter _, rfl, ?_⟩
  · rw [hd.initial, ofTable, declarations, List.map_map]
    rfl
  · simp only [toJson, constructorFields, users, surface]
    rfl

def wordsDocument : Json :=
  .object [("types", .array [.object [("name", .text "Word"), ("constructors", .array [
    .object [("name", .text "More"), ("args", .array [.text "@", .object [("seq", .text "@")], .text "Word"])],
    .object [("name", .text "Stop"), ("args", .array [.text "_"])]])]])]

theorem words_written : ofJson wordsDocument = .ok words ∧
    ∃ s, ofJson words.toJson = .ok s ∧ s.userTypes = words.userTypes ∧ s.toJson = words.toJson := by
  have letter : Arg.ofJson (.text "@") = .ok (.plain (.atom .unit)) := by cbv
  have marks : Arg.ofJson (.object [("seq", .text "@")]) = .ok (.many .sequence (.atom .unit)) := by cbv
  have word : Arg.ofJson (.text "Word") = .ok (.plain (.ref "Word")) := by cbv
  have nothing : Arg.ofJson (.text "_") = .ok (.plain .epsilon) := by cbv
  have read : ofJson wordsDocument = ofDeclarations wordEntries [] := by
    simp [ofJson, wordsDocument, declarationOfJson, constructorOfJson, partsOf, Json.get?, Json.entries?, Json.array?,
      Json.elements?, Assoc.ofFields, Assoc.put, Assoc.get?, pure, bind, Except.pure, Except.bind, letter, marks, word,
      nothing]
    rfl
  have accepted : ofJson wordsDocument = .ok words := read
  obtain ⟨s, h, _, hu, _, _, hj⟩ := ofJson_written accepted
  exact ⟨accepted, s, h, hu, hj⟩

end Specification

end BoltzmannSampling
