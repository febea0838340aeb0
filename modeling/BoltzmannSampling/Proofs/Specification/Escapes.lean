import Mathlib
import BoltzmannSampling.Proofs.Specification.Document

/-!
What reading the document of a system ends in: a system, a fault of the specification, or a failure that is none. The
last has two causes. Where a document should list constructors or arguments it may hold a value that lists nothing, and
a weight may be an integer beyond the range of doubles. Such a part counts only if everything before it could be read,
and then nothing after it does.
-/

namespace BoltzmannSampling

open Checks (Fails Escapes)

namespace Failure

-- The faults of specifications.
def IsModel (e : Failure) : Prop := ∃ fault, e = .model fault

theorem isModel_malformed (reason : Malformed) : (Failure.malformed reason).IsModel := ⟨_, rfl⟩

theorem not_isModel_wrongKind : ¬wrongKind.IsModel := nofun

theorem not_isModel_tooLarge : ¬tooLarge.IsModel := nofun

end Failure

open Failure

namespace Json

-- A value under a name that lists nothing: null, a truth value or a number.
def Partless (doc : Json) (name : String) : Prop := ∃ found, doc.get? name = some found ∧ found.elements? = none

-- An integer beyond the range of doubles.
def Vast (doc : Json) : Prop := ∃ i, doc = .number (.int i) ∧ Binary64.ofInt? i = none

end Json

namespace Arg

theorem fails_ofShorthand (found : Json) : Fails IsModel (ofShorthand found) := by
  cases found
  case text => exact .ite (.ok _) <| .ite (.ok _) <| .ite (.error <| isModel_malformed _) (.ok _)
  all_goals exact .error <| isModel_malformed _

theorem fails_ofModifier (m : Modifier) (operand : Except Json Arg) : Fails IsModel (ofModifier m operand) := by
  have entry : Fails IsModel (ofEntry operand) := by
    cases operand
    case ok    => exact .ok _
    case error => exact fails_ofShorthand _
  refine .bind entry fun a => ?_
  split
  case h_1 => exact .ok _
  case h_2 => exact .error <| isModel_malformed _

theorem fails_ofSize (found : Json) : Fails IsModel (Atom.ofSize found) := by
  unfold Atom.ofSize
  split
  case h_1 =>
    split
    case isTrue  => exact .ok _
    case isFalse => exact .error <| isModel_malformed _
  case h_2 => exact .error <| isModel_malformed _

-- Whatever stands in the place of an argument, it is an argument or at fault.
theorem fails_ofJson (doc : Json) : Fails IsModel (ofJson doc) := by
  induction doc using ofJson.induct
  case case1 => simp [ofJson, Fails]
  case case2 value hf =>
    rw [ofJson_single hf, if_pos rfl]
    exact (fails_ofSize value).map
  case case3 hf _ hi =>
    rw [ofJson_single hf, if_neg (by decide), if_pos rfl]
    exact hi.bind fun _ => fails_ofModifier _ _
  case case4 hf _ _ hi =>
    rw [ofJson_single hf, if_neg (by decide), if_neg (by decide), if_pos rfl]
    exact hi.bind fun _ => fails_ofModifier _ _
  case case5 hf ha hs ht =>
    rw [ofJson_single hf, if_neg ha, if_neg hs, if_neg ht]
    exact .error <| isModel_malformed _
  case case6 hf =>
    rw [ofJson]
    split
    case h_1 hs => exact (hf _ _ hs).elim
    case h_2    => exact .error <| isModel_malformed _
  case case7 ht ho =>
    rw [ofJson]
    · exact .error <| isModel_malformed _
    · exact ht
    · exact ho

end Arg

namespace Constructor

theorem weightOf_escapes {name : String} {found : Json} {e : Failure} :
    Escapes IsModel (weightOf name found) e ↔ found.Vast ∧ e = .tooLarge := by
  -- A number that was read is at fault if it is no weight.
  have checked (w : Float) : Fails IsModel (if h : isWeight w = true then .ok ⟨w, h⟩
      else .error (.malformed (.weightValue name found)) : Except Failure { w : Float // isWeight w = true }) := by
    split
    case isTrue  => exact .ok _
    case isFalse => exact .error <| isModel_malformed _
  have judged (h : Fails IsModel (weightOf name found)) (small : ¬found.Vast) :
      Escapes IsModel (weightOf name found) e ↔ found.Vast ∧ e = .tooLarge :=
    iff_of_false h.not_escapes fun ⟨vast, _⟩ => small vast
  cases found
  case null | array | object => exact judged (.error <| isModel_malformed _) (by simp [Json.Vast])
  case bool => exact judged (checked _) (by simp [Json.Vast])
  case text t =>
    refine judged ?_ (by simp [Json.Vast])
    rw [weightOf]
    cases Text.readFloat? t
    case none   => exact .error <| isModel_malformed _
    case some w => exact checked w
  case number n =>
    cases n
    case float w => exact judged (checked w) (by simp [Json.Vast])
    case int i =>
      cases hi : Binary64.ofInt? i
      case none =>
        have vast : (Json.number (.int i)).Vast := ⟨i, rfl, hi⟩
        have fails : weightOf name (.number (.int i)) = .error .tooLarge := by simp [weightOf, Number.toFloat?, hi]
        rw [fails, Checks.escapes_error not_isModel_tooLarge]
        exact (and_iff_right vast).symm
      case some w =>
        refine judged ?_ (by simp [Json.Vast, hi])
        have := checked w
        simpa [weightOf, Number.toFloat?, hi]

-- With arguments that are read, only the weight can escape, and it does if the name is proper.
theorem declare_escapes {name weight : Json} {args : List Arg} {e : Failure} :
    Escapes IsModel (declare name (args.map .ok) weight) e ↔
      (∃ n, name = .text n ∧ n ≠ "") ∧ weight.Vast ∧ e = .tooLarge := by
  cases name
  case text n =>
    by_cases hn : n = ""
    case pos =>
      rw [declare, if_pos (String.isEmpty_iff.mpr hn)]
      refine iff_of_false (Fails.error <| isModel_malformed _).not_escapes ?_
      rintro ⟨⟨_, he, h⟩, -⟩
      exact h (Json.text.inj he ▸ hn)
    case neg =>
      have proper : ∃ n', Json.text n = .text n' ∧ n' ≠ "" := ⟨n, rfl, hn⟩
      have read : Escapes IsModel (declare (.text n) (args.map .ok) weight) e ↔ Escapes IsModel (weightOf n weight) e := by
        rw [declare, if_neg (mt String.isEmpty_iff.mp hn), mapM_ofEntry, Checks.escapes_ok_bind]
        exact Checks.escapes_bind_ok
      rw [read, weightOf_escapes, and_iff_right proper]
  all_goals exact iff_of_false (Fails.error <| isModel_malformed _).not_escapes (by simp)

end Constructor

namespace Declaration

theorem fails_named (name : Json) (entries : List (Except Json (Constructor Arg))) :
    Fails IsModel (named name entries) := by
  cases name
  case text => exact .ite (.error <| isModel_malformed _) (.ok _)
  all_goals exact .error <| isModel_malformed _

end Declaration

namespace Specification

variable {doc : Json} {e : Failure}

theorem partsOf_escapes {P : Failure → Prop} (h : ¬P .wrongKind) {name : String} :
    Escapes P (partsOf doc name) e ↔ doc.Partless name ∧ e = .wrongKind := by
  unfold partsOf Json.Partless
  split
  case h_1 hn => exact iff_of_false (Fails.ok _).not_escapes fun ⟨⟨_, found, _⟩, _⟩ => nomatch hn.symm.trans found
  case h_2 found hn =>
    split
    case h_1 hp =>
      refine iff_of_false (Fails.ok _).not_escapes ?_
      rintro ⟨⟨found', here, partless⟩, -⟩
      cases hn.symm.trans here
      cases hp.symm.trans partless
    case h_2 hp => exact (Checks.escapes_error h).trans (and_iff_right ⟨found, hn, hp⟩).symm

-- The entry of a constructor with something in it that is not of a specification's faults.
inductive EscapingConstructor (doc : Json) : Failure → Prop
  | args {name : Json} (named : doc.get? "name" = some name) (partless : doc.Partless "args") :
    EscapingConstructor doc .wrongKind
  | weight {n : String} {parts : List Json} {args : List Arg} {weight : Json}
    (named : doc.get? "name" = some (.text n)) (proper : n ≠ "") (listed : partsOf doc "args" = .ok parts)
    (read : parts.mapM Arg.ofJson = .ok args) (found : doc.get? "weight" = some weight) (vast : weight.Vast) :
    EscapingConstructor doc .tooLarge

-- The first entry of a type that cannot be read, if that is not of a specification's faults.
inductive EscapingType (doc : Json) : Failure → Prop
  | constructors {name : Json} (named : doc.get? "name" = some name) (partless : doc.Partless "constructors") :
    EscapingType doc .wrongKind
  | constructor {name entry : Json} {before after : List Json} {e : Failure}
    (named : doc.get? "name" = some name) (listed : partsOf doc "constructors" = .ok (before ++ entry :: after))
    (read : ∀ b ∈ before, ∃ c, constructorOfJson name b = .ok c) (escapes : EscapingConstructor entry e) :
    EscapingType doc e

inductive EscapingDocument (doc : Json) : Failure → Prop
  | type {entry : Json} {before after : List Json} {e : Failure}
    (listed : (doc.get? "types").bind Json.array? = some (before ++ entry :: after))
    (read : ∀ b ∈ before, ∃ d, declarationOfJson b = .ok d) (escapes : EscapingType entry e) :
    EscapingDocument doc e

theorem vast_getD {weight? : Option Json} :
    (weight?.getD (.float 1)).Vast ↔ ∃ weight, weight? = some weight ∧ weight.Vast := by
  cases weight?
  case none => simp [Json.Vast, Json.float]
  case some => simp

theorem constructorOfJson_escapes {typeName : Json} :
    Escapes IsModel (constructorOfJson typeName doc) e ↔ EscapingConstructor doc e := by
  rw [constructorOfJson]
  cases hn : doc.get? "name"
  case none =>
    refine iff_of_false (Fails.error <| isModel_malformed _).not_escapes ?_
    rintro (⟨named, -⟩ | ⟨named, -⟩) <;> cases hn.symm.trans named
  case some name =>
    have args {parts : List Json} : ¬Escapes IsModel (parts.mapM Arg.ofJson) e :=
      (Fails.mapM fun a _ => Arg.fails_ofJson a).not_escapes
    simp only [Checks.escapes_bind, partsOf_escapes not_isModel_wrongKind, args, false_or, Constructor.declare_escapes, vast_getD]
    constructor
    · rintro (⟨partless, rfl⟩ | ⟨parts, listed, args, read, ⟨n, rfl, proper⟩, ⟨weight, found, vast⟩, rfl⟩)
      · exact .args hn partless
      · exact .weight hn proper listed read found vast
    · rintro (⟨-, partless⟩ | ⟨named, proper, listed, read, found, vast⟩)
      · exact .inl ⟨partless, rfl⟩
      · cases hn.symm.trans named
        exact .inr ⟨_, listed, _, read, ⟨_, rfl, proper⟩, ⟨_, found, vast⟩, rfl⟩

theorem declarationOfJson_escapes : Escapes IsModel (declarationOfJson doc) e ↔ EscapingType doc e := by
  rw [declarationOfJson]
  cases hn : doc.get? "name"
  case none =>
    refine iff_of_false (Fails.error <| isModel_malformed _).not_escapes ?_
    rintro (⟨named, -⟩ | ⟨named, -⟩) <;> cases hn.symm.trans named
  case some name =>
    have named {cs : List (Constructor Arg)} : ¬Escapes IsModel (Declaration.named name (cs.map .ok)) e :=
      (Declaration.fails_named _ _).not_escapes
    simp only [Checks.escapes_bind, partsOf_escapes not_isModel_wrongKind, named, Checks.escapes_mapM, constructorOfJson_escapes, and_false,
      exists_false, or_false]
    constructor
    · rintro (⟨partless, rfl⟩ | ⟨_, listed, before, entry, after, rfl, read, escapes⟩)
      · exact .constructors hn partless
      · exact .constructor hn listed read escapes
    · rintro (⟨-, partless⟩ | ⟨named, listed, read, escapes⟩)
      · exact .inl ⟨partless, rfl⟩
      · cases hn.symm.trans named
        exact .inr ⟨_, listed, _, _, _, rfl, read, escapes⟩

theorem fails_annotationsOfJson (doc : Json) : Fails IsModel (annotationsOfJson doc) := by
  unfold annotationsOfJson
  split
  case h_1 => exact .ok _
  case h_2 =>
    refine .ite (.ok _) ?_
    split
    case h_1 => exact .ok _
    case h_2 => exact .error <| isModel_malformed _

theorem fails_checkNames (seen : List String) (entries : List (Except Json Declaration)) :
    Fails IsModel (checkNames seen entries) := by
  induction seen, entries using checkNames.induct
  case case1 => exact .ok _
  case case2 => exact .error <| isModel_malformed _
  case case3 h =>
    rw [checkNames, if_pos h]
    exact .error ⟨_, rfl⟩
  case case4 hs hp =>
    rw [checkNames, if_neg hs, if_pos hp]
    exact .error <| isModel_malformed _
  case case5 hs hp _ hc _ =>
    rw [checkNames, if_neg hs, if_neg hp, hc]
    exact .ok _
  case case6 hs hp _ hc hi =>
    rw [checkNames, if_neg hs, if_neg hp, hc]
    exact .error <| hi _ hc

theorem fails_checkOperand (users : List String) (d : Declaration) (c : Constructor Arg) (a : Arg) :
    Fails IsModel (checkOperand users d c a) := by
  unfold checkOperand
  split
  case h_1 => exact .ite (.ok _) (.error ⟨_, rfl⟩)
  case h_2 => exact .ok _

theorem fails_checkDeclaration (users : List String) (d : Declaration) : Fails IsModel (checkDeclaration users d) := by
  refine .ite (.error ⟨_, rfl⟩) <| .forM fun entry _ => ?_
  cases entry
  case error  => exact .error <| isModel_malformed _
  case ok c _ => exact .forM fun a _ => fails_checkOperand users d c a

theorem fails_checkAuxiliary (users : List String) (t : TypeDef) : Fails IsModel (checkAuxiliary users t) :=
  .ite (.error ⟨_, rfl⟩) (.ok _)

theorem fails_checkProductions (names seen : List String) (ps : List (TypeDef × Constructor Symbol)) :
    Fails IsModel (checkProductions names seen ps) := by
  induction ps generalizing seen
  case nil => exact .ok _
  case cons p ps hi =>
    refine .ite (.error ⟨_, rfl⟩) ?_
    split
    case h_1 => exact .error ⟨_, rfl⟩
    case h_2 => exact hi _

theorem fails_checkAnnotation (entry : String × Json) : Fails IsModel ( checkAnnotation entry) := by
  unfold checkAnnotation
  split
  case h_4 => exact .error <| isModel_malformed _
  all_goals exact .ok _

-- Declarations are a system or at fault, whatever stands among them.
theorem fails_ofDeclarations (entries : List (Except Json Declaration)) (annotations : List (String × Json)) :
    Fails IsModel (ofDeclarations entries annotations) := by
  unfold ofDeclarations
  refine .ite (.error ⟨_, rfl⟩) <| .bind (fails_checkNames _ _) fun ds => ?_
  refine .bind (.forM fun d _ => fails_checkDeclaration _ d) fun _ => ?_
  refine .bind (.forM fun t _ => fails_checkAuxiliary _ t) fun _ => ?_
  refine .bind (fails_checkProductions _ _ _) fun _ => ?_
  exact .bind (.forM fun a _ => fails_checkAnnotation a) fun _ => .ok _

-- A document fails with something else than a fault of its specification exactly if its first entry that cannot be
-- read does.
theorem ofJson_escapes : Escapes IsModel (ofJson doc) e ↔ EscapingDocument doc e := by
  unfold ofJson
  split
  case h_1 hn =>
    refine iff_of_false (Fails.error <| isModel_malformed _).not_escapes ?_
    rintro ⟨listed, -⟩
    cases hn.symm.trans listed
  case h_2 types ht =>
    have rest (ds : List Declaration) :
        ¬Escapes IsModel (annotationsOfJson doc >>= ofDeclarations (ds.map .ok)) e :=
      (Fails.bind (fails_annotationsOfJson doc) fun _ => fails_ofDeclarations _ _).not_escapes
    simp only [Checks.escapes_bind (f := fun ds => _ >>= _), rest, and_false, exists_false, or_false,
      Checks.escapes_mapM, declarationOfJson_escapes]
    constructor
    · rintro ⟨before, entry, after, rfl, read, escapes⟩
      exact .type ht read escapes
    · rintro ⟨listed, read, escapes⟩
      cases ht.symm.trans listed
      exact ⟨_, _, _, rfl, read, escapes⟩

-- Lists where a document has to list something, and weights in the range of doubles.
structure ReadableConstructor (doc : Json) : Prop where
  args   : ¬doc.Partless "args"
  weight : ∀ weight, doc.get? "weight" = some weight → ¬weight.Vast

structure ReadableType (doc : Json) : Prop where
  constructors : ¬doc.Partless "constructors"
  entries      : ∀ entries, partsOf doc "constructors" = .ok entries → ∀ c ∈ entries, ReadableConstructor c

def Readable (doc : Json) : Prop :=
  ∀ types, (doc.get? "types").bind Json.array? = some types → ∀ t ∈ types, ReadableType t

theorem Readable.fails_ofJson (h : Readable doc) : Fails IsModel (ofJson doc) := by
  refine Checks.fails_of_not_escapes fun e he => ?_
  obtain ⟨listed, -, ht⟩ := ofJson_escapes.mp he
  have type := h _ listed _ (List.mem_append_right _ List.mem_cons_self)
  rcases ht with ⟨-, partless⟩ | ⟨-, listed, -, hc⟩
  · exact type.constructors partless
  · have constructor := type.entries _ listed _ (List.mem_append_right _ List.mem_cons_self)
    rcases hc with ⟨-, partless⟩ | ⟨-, -, -, -, found, vast⟩
    · exact constructor.args partless
    · exact constructor.weight _ found vast

end Specification

end BoltzmannSampling
