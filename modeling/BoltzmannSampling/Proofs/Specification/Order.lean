import Mathlib
import BoltzmannSampling.Proofs.Specification.Document
import BoltzmannSampling.Proofs.Specification.Table

/-!
The order of the table of a system that is written and read again. The auxiliary types of a table stand in the order of
the first modifiers that need them. Writing puts modifiers also where an argument named an auxiliary type itself, so
they stand in the order of the first arguments that refer to them, in whichever way, once the document is read again.
The two orders may differ, but not if every auxiliary type is referred to by modifiers alone.
-/

namespace BoltzmannSampling

-- No argument names an auxiliary type itself.
def Declaration.Modified (ds : List Declaration) : Prop :=
  ∀ d ∈ ds, ∀ c ∈ d.proper, ∀ name, .plain (.ref name) ∈ c.args → name ∈ ds.map Declaration.name

namespace Specification

variable {s : Specification} {ds : List Declaration} {annotations : List (String × Json)}

def isAuxiliary (s : Specification) (name : String) : Bool := (s.type? name).any TypeDef.isAuxiliary

def auxiliaryNames (s : Specification) : List String := (s.types.filter TypeDef.isAuxiliary).map TypeDef.name

-- The auxiliary types that arguments of the declared types refer to, in order, each as often as it is referred to.
def mentioned (s : Specification) : List String :=
  s.userTypes.flatMap fun t => t.constructors.flatMap fun c => c.refs.filter s.isAuxiliary

theorem names_ofTable (ds : List Declaration) (annotations : List (String × Json)) :
    (ofTable ds annotations).auxiliaryNames = (auxiliaries ds).map TypeDef.name ∧
      (ofTable ds annotations).names = ds.map Declaration.name ++ (auxiliaries ds).map TypeDef.name := by
  have declared : (ds.map declaredType).filter TypeDef.isAuxiliary = [] :=
    List.filter_eq_nil_iff.mpr <| List.forall_mem_map.mpr fun _ _ => nofun
  have others : (auxiliaries ds).filter TypeDef.isAuxiliary = auxiliaries ds :=
    List.filter_eq_self.mpr fun _ h => isAuxiliary_of_mem_auxiliaries h
  constructor
  · rw [auxiliaryNames, ofTable, table, List.filter_append, declared, others, List.nil_append]
  · rw [names, ofTable, table, List.map_append, List.map_map]
    rfl

namespace Resolved

-- A reference is written as a modifier if it is to an auxiliary type, which is the one of that modifier.
theorem surface_ref (h : s.Resolved) (name : String) :
    (s.isAuxiliary name = true ∧ ∃ m e, name = TypeDef.auxiliaryName m e ∧ s.surface (.ref name) = .many m e) ∨
      (s.isAuxiliary name = false ∧ s.surface (.ref name) = .plain (.ref name)) := by
  simp only [surface, isAuxiliary]
  cases found : s.type? name
  case none => exact .inr ⟨rfl, rfl⟩
  case some t =>
    obtain ⟨n, cs, _ | ⟨m, e⟩⟩ := t
    · exact .inr ⟨rfl, rfl⟩
    · have named : n = name := by simpa using List.find?_some found
      have same := congrArg TypeDef.name <| h.auxiliary _ (List.mem_of_find?_eq_some found) m e rfl
      exact .inl ⟨rfl, m, e, named.symm.trans same, rfl⟩

-- The modifiers of a written system are those of the auxiliary types to which its arguments refer.
theorem uses_declarations (h : s.Resolved) : Declaration.uses s.declarations = s.mentioned := by
  have argument (x : Symbol) : (s.surface x).modifier? = x.type?.filter s.isAuxiliary := by
    cases x
    case atom | epsilon => rfl
    case ref name =>
      rcases h.surface_ref name with ⟨haux, m, e, hn, many⟩ | ⟨plain, same⟩
      · rw [many, Symbol.type?, Option.filter_some, if_pos haux, hn]
        rfl
      · rw [same, Symbol.type?, Option.filter_some, plain]
        rfl
  have arguments (c : Constructor Symbol) : (s.surfaced c).args.filterMap Arg.modifier? = c.refs.filter s.isAuxiliary := by
    rw [surfaced, List.filterMap_map, Constructor.refs, List.filter_filterMap]
    exact List.filterMap_congr fun x _ => argument x
  rw [Declaration.uses, declarations, List.flatMap_map, mentioned]
  refine List.flatMap_congr fun t _ => ?_
  rw [proper_declaration, List.flatMap_map]
  exact List.flatMap_congr fun c _ => arguments c

end Resolved

-- Where arguments refer to auxiliary types by modifiers alone, these are the ones which the table mentions.
theorem uses_eq_mentioned (accepted : Acceptable ds annotations) (modified : Declaration.Modified ds) :
    Declaration.uses ds = (ofTable ds annotations).mentioned := by
  have resolved : (ofTable ds annotations).Resolved := resolved <| ofDeclarations_eq_ok.mpr ⟨ds, rfl, accepted, rfl⟩
  have kind {t : TypeDef} (ht : t ∈ table ds) : (ofTable ds annotations).isAuxiliary t.name = t.isAuxiliary := by
    rw [isAuxiliary, resolved.type?_eq ht, Option.any_some]
  have argument (d : Declaration) (hd : d ∈ ds) (c : Constructor Arg) (hc : c ∈ d.proper) (a : Arg) (ha : a ∈ c.args) :
      a.modifier? = a.desugar.type?.filter (ofTable ds annotations).isAuxiliary := by
    cases a
    case many m e =>
      obtain ⟨t, ht, hn⟩ := exists_auxiliary hd hc ha
      have haux := (kind (List.mem_append_right _ ht)).trans (isAuxiliary_of_mem_auxiliaries ht)
      rw [Arg.desugar, Symbol.type?, ← hn, Option.filter_some, if_pos haux, hn]
      rfl
    case plain x =>
      cases x
      case atom | epsilon => rfl
      case ref name =>
        obtain ⟨u, hu, rfl⟩ := List.mem_map.mp (modified d hd c hc name ha)
        have declared : (ofTable ds annotations).isAuxiliary u.name = false :=
          kind (List.mem_append_left _ (List.mem_map_of_mem hu))
        rw [Arg.desugar, Symbol.type?, Option.filter_some, declared]
        rfl
  rw [mentioned, userTypes_ofTable, List.flatMap_map, Declaration.uses]
  refine List.flatMap_congr fun d hd => ?_
  rw [declaredType, List.flatMap_map]
  refine List.flatMap_congr fun c hc => ?_
  rw [Constructor.desugar, Constructor.refs, List.filterMap_map, List.filter_filterMap]
  exact List.filterMap_congr (argument d hd c hc)

-- The auxiliary types of a table stand in the order in which their names come in a list.
def Ordered (s : Specification) (uses : List String) : Prop :=
  s.auxiliaryNames.Pairwise fun a b => uses.idxOf a < uses.idxOf b

theorem ordered_ofTable (ds : List Declaration) (annotations : List (String × Json)) :
    (ofTable ds annotations).Ordered (Declaration.uses ds) := by
  rw [Ordered, (names_ofTable ds annotations).1, ← map_auxiliaries]
  exact firstOfEachName_order _

theorem exists_declarations {doc : Json} (h : ofJson doc = .ok s) :
    ∃ ds, Acceptable ds s.annotations ∧ s = ofTable ds s.annotations := by
  simp only [ofJson] at h
  split at h
  case h_1 => cases h
  case h_2 =>
    simp only [Checks.bind_eq_ok] at h
    obtain ⟨_, -, annotations, -, h⟩ := h
    obtain ⟨ds, -, accepted, rfl⟩ := ofDeclarations_eq_ok.mp h
    exact ⟨ds, accepted, rfl⟩

-- A system read from a document, written and read again: the declared types stand as before, and the auxiliary types in
-- the order in which arguments refer to them. So all types stand as before exactly if that is the order of the system.
theorem names_written {doc : Json} (h : ofJson doc = .ok s) :
    ∃ ds s', ofDeclarations (ds.map .ok) s.annotations = .ok s ∧ ofJson s.toJson = .ok s' ∧
      s'.auxiliaryNames.Perm s.auxiliaryNames ∧ s'.Ordered s.mentioned ∧
      (s'.names = s.names ↔ s.Ordered s.mentioned) ∧ (Declaration.Modified ds → s'.names = s.names) := by
  obtain ⟨hr, hd⟩ := documented h
  obtain ⟨ds, accepted, table⟩ := exists_declarations h
  have read : ofJson s.toJson = .ok (ofTable s.declarations s.annotations) :=
    (ofJson_toJson_eq hd).trans <| ofDeclarations_eq_ok.mpr ⟨_, rfl, hr.acceptable hd, rfl⟩
  have perm : (ofTable s.declarations s.annotations).auxiliaryNames.Perm s.auxiliaryNames :=
    ((hr.table_declarations hd).filter _).map _
  have ordered : (ofTable s.declarations s.annotations).Ordered s.mentioned :=
    hr.uses_declarations ▸ ordered_ofTable ..
  have declared : s.declarations.map Declaration.name = ds.map Declaration.name := by
    have users : s.userTypes = ds.map declaredType := table ▸ userTypes_ofTable ..
    rw [declarations, users, List.map_map, List.map_map]
    rfl
  have auxiliaries : (ofTable s.declarations s.annotations).names = s.names ↔
      (ofTable s.declarations s.annotations).auxiliaryNames = s.auxiliaryNames := by
    have := names_ofTable ds s.annotations
    rw [← table] at this
    rw [(names_ofTable _ _).2, (names_ofTable _ _).1, this.2, this.1, declared, List.append_cancel_left_eq]
  have same : (ofTable s.declarations s.annotations).names = s.names ↔ s.Ordered s.mentioned := by
    rw [auxiliaries]
    constructor
    · intro he
      rwa [Ordered, he] at ordered
    · intro ho
      exact perm.eq_of_pairwise (fun _ _ _ _ before after => absurd before after.not_gt) ordered ho
  refine ⟨ds, _, ofDeclarations_eq_ok.mpr ⟨ds, rfl, accepted, table⟩, read, perm, ordered, same, fun modified => ?_⟩
  rw [same, table, ← uses_eq_mentioned accepted modified]
  exact ordered_ofTable ..

-- Bags, and rows that are named before they are used as a modifier: read again, rows come before bags.
example :
    let declared : Declaration := ⟨"T", [
      .ok ⟨"Row", [.plain (.atom .unit), .plain (.ref "Seq(T)")], 1, isWeight_one⟩,
      .ok ⟨"Bag", [.plain (.atom .unit), .many .set (.ref "T")], 1, isWeight_one⟩,
      .ok ⟨"Rows", [.plain (.atom .unit), .many .sequence (.ref "T")], 1, isWeight_one⟩], .text "plain", none, 0⟩
    (ofTable [declared] []).names = ["T", "Set(T)", "Seq(T)"] ∧
      (ofTable (ofTable [declared] []).declarations []).names = ["T", "Seq(T)", "Set(T)"] := by
  constructor <;> rfl

end Specification

end BoltzmannSampling
