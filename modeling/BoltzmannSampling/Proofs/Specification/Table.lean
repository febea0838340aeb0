import Mathlib
import BoltzmannSampling.Proofs.Assoc
import BoltzmannSampling.Proofs.Derivation.WellFounded
import BoltzmannSampling.Proofs.Specification.Acceptance

/-!
The table of a system. The declared types stand first, each as it was declared but for a reference in place of every
modifier, as the arguments of the table are symbols; the auxiliary types follow in the order in which the declarations
use them first. Names differ, references name types of the table, and names and constructors lead back to their places.
-/

namespace BoltzmannSampling

inductive Arg.Becomes : Arg → Symbol → Prop
  | plain (x : Symbol)                : Becomes (.plain x) x
  | many (m : Modifier) (e : Element) : Becomes (.many m e) (.ref (m.word ++ "(" ++ e.text ++ ")"))

structure Constructor.Becomes (k : Constructor Arg) (c : Constructor Symbol) : Prop where
  name   : c.name = k.name
  weight : c.weight = k.weight
  args   : List.Forall₂ Arg.Becomes k.args c.args

structure Declaration.Becomes (d : Declaration) (t : TypeDef) : Prop where
  name         : t.name = d.name
  origin       : t.origin = .declared d.element d.elementSize
  constructors : d.constructors = d.proper.map .ok ∧ List.Forall₂ Constructor.Becomes d.proper t.constructors

-- A type of nothing, or an element followed by the type again.
structure TypeDef.Repeats (t : TypeDef) (m : Modifier) (e : Element) : Prop where
  name         : t.name = m.word ++ "(" ++ e.text ++ ")"
  origin       : t.origin = .auxiliary m e
  constructors : t.constructors.map (fun c => (c.name, c.args, c.weight)) =
    [(t.name ++ ".Nil", [.epsilon], 1), (t.name ++ ".Cons", [e.symbol, .ref t.name], 1)]

def Arg.modifier? : Arg → Option String
  | .plain _  => none
  | .many m e => some (m.word ++ "(" ++ e.text ++ ")")

-- The modifiers of some declarations in the order of their use, each as often as it is used.
def Declaration.uses (ds : List Declaration) : List String :=
  ds.flatMap fun d => d.proper.flatMap fun c => c.args.filterMap Arg.modifier?

namespace Specification

variable {s : Specification} {ds : List Declaration} {annotations : List (String × Json)} {ts : List TypeDef}

structure Tabulates (s : Specification) (ds : List Declaration) (declared auxiliary : List TypeDef) : Prop where
  types        : s.types = declared ++ auxiliary
  declarations : List.Forall₂ Declaration.Becomes ds declared
  repeats      : ∀ t ∈ auxiliary, ∃ m e, t.Repeats m e
  referenced   : ∀ t ∈ auxiliary, ∃ u ∈ declared, ∃ c ∈ u.constructors, t.name ∈ c.refs
  used         : ∀ name, name ∈ auxiliary.map TypeDef.name ↔ name ∈ Declaration.uses ds
  order        : (auxiliary.map TypeDef.name).Pairwise
    fun a b => (Declaration.uses ds).idxOf a < (Declaration.uses ds).idxOf b
  references   : ∀ t ∈ s.types, ∀ c ∈ t.constructors, ∀ r ∈ c.refs, r ∈ s.names
  distinct     : s.names.Nodup
  constructors : s.constructorNames.Nodup
  index        : ∀ name i, s.index? name = some i ↔ s.names[i]? = some name
  owner        : ∀ k T, s.owner? k = some T ↔ ∃ t ∈ s.types, t.name = T ∧ ∃ c ∈ t.constructors, c.name = k
  initial      : (ds.map Declaration.name).head? = some s.initial

theorem mem_firstOfEachName {name : String} :
    name ∈ (firstOfEachName ts).map TypeDef.name ↔ name ∈ ts.map TypeDef.name := by
  induction ts
  case nil => rfl
  case cons t ts hi =>
    by_cases hn : name = t.name
    case pos => simp [firstOfEachName, hn]
    case neg =>
      rw [firstOfEachName, List.map_cons, List.map_cons, List.mem_cons, List.mem_cons, or_iff_right hn, or_iff_right hn,
        ← hi]
      simp only [List.mem_map, List.mem_filter]
      constructor
      · rintro ⟨u, ⟨hu, -⟩, hn⟩
        exact ⟨u, hu, hn⟩
      · rintro ⟨u, hu, rfl⟩
        exact ⟨u, ⟨hu, by simpa using hn⟩, rfl⟩

theorem firstOfEachName_order (ts : List TypeDef) : ((firstOfEachName ts).map TypeDef.name).Pairwise
    fun a b => (ts.map TypeDef.name).idxOf a < (ts.map TypeDef.name).idxOf b := by
  induction ts
  case nil => exact .nil
  case cons t ts hi =>
    have later {name : String} (hn : name ≠ t.name) :
        ((t :: ts).map TypeDef.name).idxOf name = (ts.map TypeDef.name).idxOf name + 1 := by
      rw [List.map_cons, List.idxOf_cons_ne _ hn.symm]
    have others : ∀ name ∈ ((firstOfEachName ts).filter (·.name != t.name)).map TypeDef.name, name ≠ t.name := by
      refine List.forall_mem_map.mpr fun u hu => ?_
      simpa using (List.mem_filter.mp hu).2
    refine List.pairwise_cons.mpr ⟨?_, ?_⟩
    · intro name hm
      rw [later (others name hm), List.map_cons, List.idxOf_cons_self]
      exact Nat.succ_pos _
    · refine List.Pairwise.imp_of_mem ?_ (hi.sublist (List.filter_sublist.map _))
      intro a b ha hb hl
      rw [later (others a ha), later (others b hb)]
      exact Nat.succ_lt_succ hl

theorem map_auxiliaries (ds : List Declaration) :
    (ds.flatMap fun d => d.proper.flatMap fun c => c.args.filterMap Arg.auxiliary?).map TypeDef.name =
      Declaration.uses ds := by
  have names (a : Arg) : (a.auxiliary?).map TypeDef.name = a.modifier? := by cases a <;> rfl
  simp only [List.map_flatMap, List.map_filterMap, names]
  rfl

theorem becomes_desugar (k : Constructor Arg) : k.Becomes k.desugar where
  name   := rfl
  weight := rfl
  args   := by
    rw [Constructor.desugar, List.forall₂_map_right_iff, List.forall₂_same]
    rintro (x | ⟨m, e⟩) _
    · exact .plain x
    · exact .many m e

theorem becomes_declaredType {d : Declaration} (proper : d.constructors = d.proper.map .ok) :
    d.Becomes (declaredType d) where
  name         := rfl
  origin       := rfl
  constructors := by
    refine ⟨proper, ?_⟩
    rw [declaredType, List.forall₂_map_right_iff, List.forall₂_same]
    exact fun k _ => becomes_desugar k

theorem repeats_auxiliary (m : Modifier) (e : Element) : (TypeDef.auxiliary m e).Repeats m e where
  name         := rfl
  origin       := rfl
  constructors := rfl

theorem index?_eq_some (distinct : s.names.Nodup) {name : String} {i : Nat} :
    s.index? name = some i ↔ s.names[i]? = some name := by
  rw [index?, List.findIdx?_eq_some_iff_getElem, List.getElem?_eq_some_iff]
  constructor
  · rintro ⟨hi, found, -⟩
    exact ⟨(List.length_map TypeDef.name).symm ▸ hi, by simpa [names] using found⟩
  · rintro ⟨hi, found⟩
    have ht : i < s.types.length := hi.trans_eq (List.length_map _)
    have here : s.types[i].name = name := by simpa [names] using found
    refine ⟨ht, by simpa using here, fun j hj => ?_⟩
    have hn : j < s.names.length := hj.trans hi
    have ne : s.names[j] ≠ s.names[i] := mt distinct.getElem_inj_iff.mp hj.ne
    have there : s.types[j].name = s.names[j] := (List.getElem_map _).symm
    simpa [there, found] using ne

theorem owner?_eq_some (distinct : s.constructorNames.Nodup) {k T : String} :
    s.owner? k = some T ↔ ∃ t ∈ s.types, t.name = T ∧ ∃ c ∈ t.constructors, c.name = k := by
  have keys : (s.owners.map (·.1)).Nodup := by
    rw [owners, List.map_map]
    exact distinct
  rw [owner?, Assoc.get?_eq_some keys, owners, List.mem_map]
  constructor
  · rintro ⟨⟨t, c⟩, hp, he⟩
    obtain ⟨ht, hc⟩ := mem_productions.mp hp
    cases he
    exact ⟨t, ht, rfl, c, hc, rfl⟩
  · rintro ⟨t, ht, rfl, c, hc, rfl⟩
    exact ⟨(t, c), mem_productions.mpr ⟨ht, hc⟩, rfl⟩

theorem tabulates_ofTable (accepted : Acceptable ds annotations) :
    (ofTable ds annotations).Tabulates ds (ds.map declaredType) (auxiliaries ds) := by
  have resolved : (ofTable ds annotations).Resolved := resolved <| ofDeclarations_eq_ok.mpr ⟨ds, rfl, accepted, rfl⟩
  have ⟨d, rest, hd⟩ := List.exists_cons_of_ne_nil accepted.nonempty
  exact {
    types        := rfl
    declarations := by
      rw [List.forall₂_map_right_iff, List.forall₂_same]
      exact fun d hd => becomes_declaredType (accepted.proper d hd)
    repeats      := fun t ht =>
      have ⟨_, _, _, _, m, e, _, he⟩ := mem_auxiliaries ht
      ⟨m, e, he ▸ repeats_auxiliary m e⟩
    referenced   := fun t ht => by
      obtain ⟨d, hd, c, hc, m, e, ha, rfl⟩ := mem_auxiliaries ht
      refine ⟨declaredType d, List.mem_map_of_mem hd, c.desugar, List.mem_map_of_mem hc, ?_⟩
      exact List.mem_filterMap.mpr ⟨_, List.mem_map_of_mem ha, rfl⟩
    used         := fun name => by rw [auxiliaries, mem_firstOfEachName, map_auxiliaries]
    order        := map_auxiliaries ds ▸ firstOfEachName_order _
    references   := resolved.refs
    distinct     := resolved.names
    constructors := resolved.constructors
    index        := fun _ _ => index?_eq_some resolved.names
    owner        := fun _ _ => owner?_eq_some resolved.constructors
    initial      := by simp [ofTable, hd] }

theorem ofDeclarations_tabulates {entries : List (Except Json Declaration)}
    (h : ofDeclarations entries annotations = .ok s) :
    ∃ ds declared auxiliary, entries = ds.map .ok ∧ s.Tabulates ds declared auxiliary := by
  obtain ⟨ds, rfl, accepted, rfl⟩ := ofDeclarations_eq_ok.mp h
  exact ⟨ds, _, _, rfl, tabulates_ofTable accepted⟩

theorem words_tabulates : ofDeclarations wordEntries [] = .ok words ∧
    ∃ ds declared auxiliary, wordEntries = ds.map .ok ∧ words.Tabulates ds declared auxiliary ∧
      words.index? "Seq(@)" = some 1 ∧ words.owner? "More" = some "Word" := by
  have ⟨ds, declared, auxiliary, he, table⟩ := @ofDeclarations_tabulates words [] wordEntries rfl
  refine ⟨rfl, ds, declared, auxiliary, he, table, (table.index ..).mpr rfl, (table.owner ..).mpr ?_⟩
  exact ⟨_, List.mem_cons_self, rfl, _, List.mem_cons_self, rfl⟩

end Specification

end BoltzmannSampling
