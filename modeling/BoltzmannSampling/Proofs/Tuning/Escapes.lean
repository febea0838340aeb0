import Mathlib
import BoltzmannSampling.Proofs.Specification.Escapes
import BoltzmannSampling.Proofs.Tuning.Rejection

/-!
What loading a tuning document ends in: a tuned system, a fault of the data, or a failure that is none. The last has
four causes. An integer beyond the range of doubles may stand for a number, a list or an object for a name or for the
mode, a value that lists nothing for the constructors of a type, and a name of a constructor or of a type may be no
text. What comes first in the order of reading decides; names that are no texts are met only once all is read.
-/

namespace BoltzmannSampling

open Checks (Fails Escapes)

namespace Failure

-- Names that are not those of the system, and data that are invalid.
inductive OfData : Failure → Prop
  | mismatch (missing extra duplicated : List String) : OfData (.tuning (.mismatch missing extra duplicated))
  | data (fault : DataFault) : OfData (.data fault)

theorem not_ofData_wrongKind : ¬wrongKind.OfData := nofun

theorem not_ofData_tooLarge : ¬tooLarge.OfData := nofun

end Failure

open Failure

namespace TuningData

variable {doc entry found name : Json} {found? : Option Json} {place : Quantity} {c : Contents} {e : Failure}

theorem number_escapes : Escapes OfData (number place found) e ↔ found.Vast ∧ e = .tooLarge := by
  cases found
  case number n =>
    cases n
    case float => exact iff_of_false (Fails.ok _).not_escapes (by simp [Json.Vast])
    case int i =>
      cases hi : Binary64.ofInt? i
      case none =>
        have vast : (Json.number (.int i)).Vast := ⟨i, rfl, hi⟩
        have fails : number place (.number (.int i)) = .error .tooLarge := by simp [number, Number.toFloat?, hi]
        rw [fails, Checks.escapes_error not_ofData_tooLarge]
        exact (and_iff_right vast).symm
      case some x =>
        have read : number place (.number (.int i)) = .ok x := by simp [number, Number.toFloat?, hi]
        rw [read]
        refine iff_of_false (Fails.ok _).not_escapes ?_
        rintro ⟨⟨_, ⟨⟩, vast⟩, -⟩
        cases hi.symm.trans vast
  all_goals exact iff_of_false (Fails.error <| .data _).not_escapes (by simp [Json.Vast])

theorem number?_some : number? place (some found) = number place found >>= fun x => .ok (some x) := rfl

theorem number?_escapes :
    Escapes OfData (number? place found?) e ↔ (∃ v, found? = some v ∧ v.Vast) ∧ e = .tooLarge := by
  cases found?
  case none => exact iff_of_false (Fails.ok _).not_escapes (by simp)
  case some v =>
    rw [number?_some, Checks.escapes_bind_ok, number_escapes]
    simp

-- A mode that is a list or an object.
theorem modeOf_escapes :
    Escapes OfData (modeOf doc) e ↔ (∃ m, doc.given? "mode" = some m ∧ Numbers.isName m = false) ∧ e = .wrongKind := by
  rw [modeOf]
  cases hm : doc.given? "mode"
  case none   => exact iff_of_false (Fails.ok _).not_escapes (by simp)
  case some m =>
    cases hn : Numbers.isName m
    case false =>
      have other : ∃ m', some m = some m' ∧ Numbers.isName m' = false := ⟨m, rfl, hn⟩
      simp only [hn, Bool.not_false, if_true]
      rw [Checks.escapes_error not_ofData_wrongKind, and_iff_right other]
    case true =>
      simp only [hn, Bool.not_true, Bool.false_eq_true, if_false]
      refine iff_of_false (Fails.not_escapes ?_) (by simp [hn])
      split
      · exact .ok _
      · exact .error (.data _)

-- Numbers by name of which the first that cannot be read is vast.
inductive EscapingNumbers (place : Json → Quantity) : List (String × Json) → Failure → Prop
  | vast {before after : List (String × Json)} {n : String} {v : Json}
    (read : ∀ b ∈ before, ∃ x, number (place (.text b.1)) b.2 = .ok x) (vast : v.Vast) :
    EscapingNumbers place (before ++ (n, v) :: after) .tooLarge

theorem numbersOf_escapes {place : Json → Quantity} {entries : List (String × Json)} :
    Escapes OfData (numbersOf place entries) e ↔ EscapingNumbers place entries e := by
  have each (b : String × Json) :
      Escapes OfData (number (place (.text b.1)) b.2 >>= fun x => .ok (Json.text b.1, x)) e ↔
        b.2.Vast ∧ e = .tooLarge := by
    rw [Checks.escapes_bind_ok, number_escapes]
  have reads (b : String × Json) :
      (∃ z, (number (place (.text b.1)) b.2 >>= fun x => .ok (Json.text b.1, x)) = .ok z) ↔
        ∃ x, number (place (.text b.1)) b.2 = .ok x := by
    simp [Checks.bind_eq_ok]
  rw [numbersOf, Checks.escapes_mapM]
  simp only [each, reads]
  constructor
  · rintro ⟨before, ⟨n, v⟩, after, rfl, read, vast, rfl⟩
    exact .vast read vast
  · rintro ⟨read, vast⟩
    exact ⟨_, _, _, rfl, read, vast, rfl⟩

-- The entry of a constructor with something in it that is not of the data's faults, and one that can be read.
inductive EscapingEntry (entry : Json) : Failure → Prop
  | name {name found : Json} (named : entry.get? "name" = some name) (given : entry.get? "probability" = some found)
    (other : Numbers.isName name = false) : EscapingEntry entry .wrongKind
  | probability {name found : Json} (named : entry.get? "name" = some name)
    (given : entry.get? "probability" = some found) (proper : Numbers.isName name = true) (vast : found.Vast) :
    EscapingEntry entry .tooLarge

inductive ReadsEntry (entry : Json) : Prop
  | mk {name found : Json} {x : Float} (named : entry.get? "name" = some name)
    (given : entry.get? "probability" = some found) (proper : Numbers.isName name = true)
    (read : number (.probability name) found = .ok x) : ReadsEntry entry

theorem addConstructor_escapes : Escapes OfData (addConstructor c entry) e ↔ EscapingEntry entry e := by
  rw [addConstructor]
  cases hn : entry.get? "name"
  case none =>
    refine iff_of_false (Fails.error (.data _)).not_escapes ?_
    rintro (⟨named, -⟩ | ⟨named, -⟩) <;> cases hn.symm.trans named
  case some name =>
    cases hp : entry.get? "probability"
    case none =>
      refine iff_of_false (Fails.error (.data _)).not_escapes ?_
      rintro (⟨-, given, -⟩ | ⟨-, given, -⟩) <;> cases hp.symm.trans given
    case some found =>
      cases proper : Numbers.isName name
      case false =>
        simp only [proper, Bool.not_false, if_true, Checks.escapes_error not_ofData_wrongKind]
        constructor
        · rintro rfl
          exact .name hn hp proper
        · rintro (⟨-, -, -⟩ | ⟨named, -, proper', -⟩)
          · rfl
          · cases hn.symm.trans named
            cases proper.symm.trans proper'
      case true =>
        simp only [proper, Bool.not_true, Bool.false_eq_true, if_false]
        rw [Checks.escapes_bind_ok, number_escapes]
        constructor
        · rintro ⟨vast, rfl⟩
          exact .probability hn hp proper vast
        · rintro (⟨named, -, other⟩ | ⟨-, given, -, vast⟩)
          · cases hn.symm.trans named
            cases proper.symm.trans other
          · cases hp.symm.trans given
            exact ⟨vast, rfl⟩

theorem addConstructor_ok (c : Contents) (entry : Json) :
    (∃ c', addConstructor c entry = .ok c') ↔ ReadsEntry entry := by
  rw [addConstructor]
  constructor
  · rintro ⟨c', h⟩
    split at h
    case h_2 => cases h
    case h_1 name found named given =>
      split at h
      case isTrue         => cases h
      case isFalse proper =>
        obtain ⟨x, read, _⟩ := Checks.bind_eq_ok.mp h
        exact ⟨named, given, by simpa using proper, read⟩
  · rintro ⟨named, given, proper, read⟩
    simp only [named, given, proper, Bool.not_true, Bool.false_eq_true, if_false, read]
    exact ⟨_, rfl⟩

theorem addValue_some (c : Contents) (name v : Json) : addValue c name (some v) = number (.value name) v >>= fun x =>
    if Numbers.isName name then .ok { c with values := c.values.put name x } else .error .wrongKind := by
  rw [addValue, number?_some]
  cases number (.value name) v <;> rfl

-- A value that can be put under its name, or none at all.
def Valued (name : Json) (found? : Option Json) : Prop :=
  ∀ v, found? = some v → (∃ x, number (.value name) v = .ok x) ∧ Numbers.isName name = true

-- A value that is vast, or that has no place under its name.
inductive EscapingValue (name : Json) (found? : Option Json) : Failure → Prop
  | value {v : Json} (given : found? = some v) (vast : v.Vast) : EscapingValue name found? .tooLarge
  | name {v : Json} {x : Float} (given : found? = some v) (read : number (.value name) v = .ok x)
    (other : Numbers.isName name = false) : EscapingValue name found? .wrongKind

theorem addValue_escapes : Escapes OfData (addValue c name found?) e ↔ EscapingValue name found? e := by
  cases found?
  case none =>
    refine iff_of_false (Fails.ok c).not_escapes ?_
    rintro (⟨given, -⟩ | ⟨given, -⟩) <;> cases given
  case some v =>
    rw [addValue_some, Checks.escapes_bind, number_escapes]
    cases other : Numbers.isName name
    case true =>
      simp only [if_true]
      constructor
      · rintro (⟨vast, rfl⟩ | ⟨x, -, escapes⟩)
        · exact .value rfl vast
        · exact absurd escapes (Fails.ok _).not_escapes
      · rintro (⟨⟨⟩, vast⟩ | ⟨-, -, named⟩)
        · exact .inl ⟨vast, rfl⟩
        · cases other.symm.trans named
    case false =>
      simp only [Bool.false_eq_true, if_false, Checks.escapes_error not_ofData_wrongKind]
      constructor
      · rintro (⟨vast, rfl⟩ | ⟨x, read, rfl⟩)
        · exact .value rfl vast
        · exact .name rfl read other
      · rintro (⟨⟨⟩, vast⟩ | ⟨⟨⟩, read, -⟩)
        · exact .inl ⟨vast, rfl⟩
        · exact .inr ⟨_, read, rfl⟩

theorem addValue_ok (c : Contents) : (∃ c', addValue c name found? = .ok c') ↔ Valued name found? := by
  cases found?
  case none   => exact iff_of_true ⟨c, rfl⟩ (by simp [Valued])
  case some v =>
    rw [addValue_some]
    simp only [Checks.bind_eq_ok]
    constructor
    · rintro ⟨c', x, read, put⟩ _ ⟨⟩
      refine ⟨⟨x, read⟩, ?_⟩
      by_contra other
      rw [if_neg other] at put
      cases put
    · intro valued
      obtain ⟨⟨x, read⟩, proper⟩ := valued v rfl
      exact ⟨_, x, read, if_pos proper⟩

-- The entry of a type with something in it that is not of the data's faults, and one that can be read.
inductive EscapingGroup (entry : Json) : Failure → Prop
  | value {name : Json} {e : Failure} (named : entry.get? "name" = some name)
    (escapes : EscapingValue name (entry.given? "value") e) : EscapingGroup entry e
  | constructors {name : Json} (named : entry.get? "name" = some name) (valued : Valued name (entry.given? "value"))
    (partless : entry.Partless "constructors") : EscapingGroup entry .wrongKind
  | entry {name part : Json} {before after : List Json} {e : Failure} (named : entry.get? "name" = some name)
    (valued : Valued name (entry.given? "value"))
    (listed : Specification.partsOf entry "constructors" = .ok (before ++ part :: after))
    (read : ∀ b ∈ before, ReadsEntry b) (escapes : EscapingEntry part e) : EscapingGroup entry e

inductive ReadsGroup (entry : Json) : Prop
  | mk {name : Json} {parts : List Json} (named : entry.get? "name" = some name)
    (valued : Valued name (entry.given? "value")) (listed : Specification.partsOf entry "constructors" = .ok parts)
    (read : ∀ b ∈ parts, ReadsEntry b) : ReadsGroup entry

theorem addType_escapes : Escapes OfData (addType c entry) e ↔ EscapingGroup entry e := by
  rw [addType]
  cases hn : entry.get? "name"
  case none =>
    refine iff_of_false (Fails.error (.data _)).not_escapes ?_
    rintro (⟨named, -⟩ | ⟨named, -⟩ | ⟨named, -⟩) <;> cases hn.symm.trans named
  case some name =>
    simp only [Checks.escapes_bind, addValue_escapes, Specification.partsOf_escapes not_ofData_wrongKind,
      Checks.escapes_foldlM, addConstructor_escapes]
    constructor
    · rintro (escapes | ⟨c₁, valued, ⟨partless, rfl⟩ | ⟨_, listed, before, part, after, c₂, rfl, read, escapes⟩⟩)
      · exact .value hn escapes
      · exact .constructors hn ((addValue_ok c).mp ⟨c₁, valued⟩) partless
      · exact .entry hn ((addValue_ok c).mp ⟨c₁, valued⟩) listed
          ((Checks.foldlM_ok addConstructor_ok c₁).mp ⟨c₂, read⟩) escapes
    · rintro (⟨named, escapes⟩ | ⟨named, valued, partless⟩ | ⟨named, valued, listed, read, escapes⟩)
      all_goals cases hn.symm.trans named
      · exact .inl escapes
      · obtain ⟨c₁, valued⟩ := (addValue_ok c).mpr valued
        exact .inr ⟨c₁, valued, .inl ⟨partless, rfl⟩⟩
      · obtain ⟨c₁, valued⟩ := (addValue_ok c).mpr valued
        obtain ⟨c₂, read⟩ := (Checks.foldlM_ok addConstructor_ok c₁).mpr read
        exact .inr ⟨c₁, valued, .inr ⟨_, listed, _, _, _, c₂, rfl, read, escapes⟩⟩

theorem addType_ok (c : Contents) (entry : Json) : (∃ c', addType c entry = .ok c') ↔ ReadsGroup entry := by
  rw [addType]
  constructor
  · rintro ⟨c', h⟩
    split at h
    case h_1 => cases h
    case h_2 name named =>
      obtain ⟨c₁, valued, h⟩ := Checks.bind_eq_ok.mp h
      obtain ⟨parts, listed, read⟩ := Checks.bind_eq_ok.mp h
      exact ⟨named, (addValue_ok c).mp ⟨c₁, valued⟩, listed, (Checks.foldlM_ok addConstructor_ok c₁).mp ⟨c', read⟩⟩
  · rintro ⟨named, valued, listed, read⟩
    obtain ⟨c₁, valued⟩ := (addValue_ok c).mpr valued
    obtain ⟨c', read⟩ := (Checks.foldlM_ok addConstructor_ok c₁).mpr read
    simp only [named]
    exact ⟨c', Checks.bind_eq_ok.mpr ⟨c₁, valued, Checks.bind_eq_ok.mpr ⟨_, listed, read⟩⟩⟩

-- The values that are not null.
def stated (entries : List (String × Json)) : List (String × Json) :=
  entries.filter fun (_, v) => match v with | .null => false | _ => true

inductive EscapingValues (doc : Json) : Failure → Prop
  | mk {found : Json} {entries : List (String × Json)} {e : Failure} (given : doc.get? "values" = some found)
    (blank : found.isBlank = false) (listed : found.entries? = some entries)
    (escapes : EscapingNumbers .value (stated entries) e) : EscapingValues doc e

theorem valuesOf_escapes : Escapes OfData (valuesOf doc) e ↔ EscapingValues doc e := by
  rw [valuesOf]
  cases hv : doc.get? "values"
  case none =>
    refine iff_of_false (Fails.ok _).not_escapes ?_
    rintro ⟨given, -⟩
    cases hv.symm.trans given
  case some found =>
    cases blank : found.isBlank
    case true =>
      simp only [blank, if_true]
      refine iff_of_false (Fails.ok _).not_escapes ?_
      rintro ⟨given, blank', -⟩
      cases hv.symm.trans given
      cases blank.symm.trans blank'
    case false =>
      simp only [blank, Bool.false_eq_true, if_false]
      cases listed : found.entries?
      case none =>
        refine iff_of_false (Fails.error (.data _)).not_escapes ?_
        rintro ⟨given, -, listed', -⟩
        cases hv.symm.trans given
        cases listed.symm.trans listed'
      case some entries =>
        refine numbersOf_escapes.trans ⟨.mk hv blank listed, ?_⟩
        rintro ⟨given, -, listed', escapes⟩
        cases hv.symm.trans given
        cases listed.symm.trans listed'
        exact escapes

-- What escapes of the numbers in a document, which stand under their names or in a list of types.
inductive EscapingContents (doc : Json) : Failure → Prop
  | probabilities {fields : List (String × Json)} {e : Failure}
    (named : doc.get? "probabilities" = some (.object fields))
    (escapes : EscapingNumbers .probability (Assoc.ofFields fields) e) : EscapingContents doc e
  | values {fields : List (String × Json)} {ps : Numbers} {e : Failure}
    (named : doc.get? "probabilities" = some (.object fields))
    (read : numbersOf .probability (Assoc.ofFields fields) = .ok ps) (escapes : EscapingValues doc e) :
    EscapingContents doc e
  | type {entry : Json} {before after : List Json} {e : Failure} (unnamed : doc.get? "probabilities" = none)
    (listed : (doc.get? "types").bind Json.array? = some (before ++ entry :: after))
    (read : ∀ b ∈ before, ReadsGroup b) (escapes : EscapingGroup entry e) : EscapingContents doc e

theorem ofNames_escapes {fields : List (String × Json)} : Escapes OfData (ofNames doc (.object fields)) e ↔
    EscapingNumbers .probability (Assoc.ofFields fields) e ∨
      ∃ ps, numbersOf .probability (Assoc.ofFields fields) = .ok ps ∧ EscapingValues doc e := by
  have rest (ps : Numbers) (repeated : List Json) :
      Escapes OfData (valuesOf doc >>= fun vs => .ok ⟨ps, repeated, vs⟩ : Except Failure Contents) e ↔
        EscapingValues doc e := by
    rw [Checks.escapes_bind_ok, valuesOf_escapes]
  simp only [ofNames, Checks.escapes_bind (f := fun ps => _ >>= _), numbersOf_escapes, rest]

theorem contentsOf_escapes : Escapes OfData (contentsOf doc) e ↔ EscapingContents doc e := by
  rw [contentsOf]
  cases hp : doc.get? "probabilities"
  case some probabilities =>
    cases probabilities
    case object fields =>
      refine ofNames_escapes.trans ⟨?_, ?_⟩
      · rintro (escapes | ⟨ps, read, escapes⟩)
        · exact .probabilities hp escapes
        · exact .values hp read escapes
      · rintro (⟨named, escapes⟩ | ⟨named, read, escapes⟩ | ⟨unnamed, -⟩)
        · cases hp.symm.trans named
          exact .inl escapes
        · cases hp.symm.trans named
          exact .inr ⟨_, read, escapes⟩
        · cases hp.symm.trans unnamed
    all_goals
      refine iff_of_false (Fails.error (.data _)).not_escapes ?_
      rintro (⟨named, -⟩ | ⟨named, -⟩ | ⟨named, -⟩) <;> cases hp.symm.trans named
  case none =>
    cases ht : (doc.get? "types").bind Json.array?
    case none =>
      refine iff_of_false (Fails.error (.data _)).not_escapes ?_
      rintro (⟨named, -⟩ | ⟨named, -⟩ | ⟨-, listed, -⟩)
      · cases hp.symm.trans named
      · cases hp.symm.trans named
      · cases ht.symm.trans listed
    case some types =>
      simp only [Checks.escapes_foldlM, addType_escapes]
      constructor
      · rintro ⟨before, entry, after, c, rfl, read, escapes⟩
        exact .type hp ht ((Checks.foldlM_ok addType_ok _).mp ⟨c, read⟩) escapes
      · rintro (⟨named, -⟩ | ⟨named, -⟩ | ⟨-, listed, read, escapes⟩)
        · cases hp.symm.trans named
        · cases hp.symm.trans named
        · cases ht.symm.trans listed
          obtain ⟨c, read⟩ := (Checks.foldlM_ok addType_ok ⟨[], [], []⟩).mpr read
          exact ⟨_, _, _, c, rfl, read, escapes⟩

-- What escapes of a document: its mode comes first, then the numbers by name, then the singularity and the parameter.
inductive EscapingTuning (doc : Json) : Failure → Prop
  | mode {m : Json} (given : doc.given? "mode" = some m) (other : Numbers.isName m = false) :
    EscapingTuning doc .wrongKind
  | contents {m : Option Mode} {e : Failure} (moded : modeOf doc = .ok m) (escapes : EscapingContents doc e) :
    EscapingTuning doc e
  | singularity {m : Option Mode} {c : Contents} {v : Json} (moded : modeOf doc = .ok m)
    (read : contentsOf doc = .ok c) (given : doc.given? "singularity" = some v) (vast : v.Vast) :
    EscapingTuning doc .tooLarge
  | parameter {m : Option Mode} {c : Contents} {x : Option Float} {v : Json} (moded : modeOf doc = .ok m)
    (read : contentsOf doc = .ok c) (known : number? .singularity (doc.given? "singularity") = .ok x)
    (given : doc.given? "parameter" = some v) (vast : v.Vast) : EscapingTuning doc .tooLarge

theorem ofJson_escapes : Escapes OfData (ofJson doc) e ↔ EscapingTuning doc e := by
  have done {x : Option Float → TuningData} :
      Escapes OfData (number? .parameter (doc.given? "parameter") >>= fun y => .ok (x y)) e ↔
        (∃ v, doc.given? "parameter" = some v ∧ v.Vast) ∧ e = .tooLarge := by
    rw [Checks.escapes_bind_ok, number?_escapes]
  simp only [ofJson, Checks.escapes_bind (f := fun _ => _ >>= _), modeOf_escapes, contentsOf_escapes, number?_escapes,
    done]
  constructor
  · rintro (⟨⟨m, given, other⟩, rfl⟩ | ⟨m, moded, escapes | ⟨c, read, ⟨⟨v, given, vast⟩, rfl⟩ |
      ⟨x, known, ⟨v, given, vast⟩, rfl⟩⟩⟩)
    · exact .mode given other
    · exact .contents moded escapes
    · exact .singularity moded read given vast
    · exact .parameter moded read known given vast
  · rintro (⟨given, other⟩ | ⟨moded, escapes⟩ | ⟨moded, read, given, vast⟩ | ⟨moded, read, known, given, vast⟩)
    · exact .inl ⟨⟨_, given, other⟩, rfl⟩
    · exact .inr ⟨_, moded, .inl escapes⟩
    · exact .inr ⟨_, moded, .inr ⟨_, read, .inl ⟨⟨_, given, vast⟩, rfl⟩⟩⟩
    · exact .inr ⟨_, moded, .inr ⟨_, read, .inr ⟨_, known, ⟨_, given, vast⟩, rfl⟩⟩⟩

theorem Blames.ofData {α : Type} {check : Except Failure α} (h : Blames check) : Fails OfData check := by
  intro e he
  obtain ⟨fault, same⟩ := h e he
  exact same ▸ .data fault

variable {data : TuningData} {checked : Checked} {mode : Mode}

theorem matching_escapes {s : Specification} :
    Escapes OfData (data.matching s) e ↔ data.probabilities.texts? = none ∧ e = .wrongKind := by
  rw [matching]
  cases data.probabilities.texts?
  case none => rw [Checks.escapes_error not_ofData_wrongKind, and_iff_right rfl]
  case some given =>
    refine iff_of_false (Fails.not_escapes ?_) (by simp)
    simp only [mismatch?]
    split
    case h_1 fault found =>
      split at found <;> cases found
      exact .error (.mismatch ..)
    case h_2 => exact .ok _

theorem positiveValues_escapes {s : Specification} :
    Escapes OfData (data.positiveValues s) e ↔ data.values.texts? = none ∧ e = .wrongKind := by
  cases ht : data.values.texts?
  case none => rw [positiveValues, ht, Checks.escapes_error not_ofData_wrongKind, and_iff_right rfl]
  case some values =>
    refine iff_of_false (Blames.ofData ?_).not_escapes (by simp)
    exact blames_positiveValues (Numbers.texts?_eq_some.mp ht)

-- Names of data that are no texts: of constructors, or of types if all else is in order.
inductive EscapingData (data : TuningData) (c : Checked) (mode : Mode) : Prop
  | probabilities (other : data.probabilities.texts? = none) : EscapingData data c mode
  | values {given : List (String × Float)} {singularity parameter : Float} {vectors : List (String × List Float)}
    (matched : data.matching c.system = .ok given) (agrees : data.checkMode c mode = .ok ())
    (singular : data.positiveSingularity = .ok singularity) (point : data.positiveParameter singularity = .ok parameter)
    (sums : c.system.types.mapM (vectorOf given) = .ok vectors) (other : data.values.texts? = none) :
    EscapingData data c mode

theorem tune_escapes : Escapes OfData (data.tune checked mode) e ↔ EscapingData data checked mode ∧ e = .wrongKind := by
  have first : ¬Escapes OfData (data.checkMode checked mode) e := blames_checkMode.ofData.not_escapes
  have second : ¬Escapes OfData data.positiveSingularity e := blames_positiveSingularity.ofData.not_escapes
  have third (x : Float) : ¬Escapes OfData (data.positiveParameter x) e := (blames_positiveParameter x).ofData.not_escapes
  have fourth (given : List (String × Float)) : ¬Escapes OfData (checked.system.types.mapM (vectorOf given)) e :=
    (Blames.mapM blames_vectorOf _).ofData.not_escapes
  have last (x y : Float) (values : List (String × Float)) (vectors : List (String × List Float)) :
      ¬Escapes OfData (Tuned.ofVectors checked mode x y values vectors) e := blames_ofVectors.ofData.not_escapes
  simp only [tune, Checks.escapes_bind, matching_escapes, first, second, third, fourth, last, positiveValues_escapes,
    false_or, and_false, exists_false, or_false]
  constructor
  · intro h
    cases h
    case inl h =>
      obtain ⟨other, he⟩ := h
      exact ⟨.probabilities other, he⟩
    case inr h =>
      obtain ⟨_, matched, _, agrees, _, singular, _, point, _, sums, other, he⟩ := h
      exact ⟨.values matched agrees singular point sums other, he⟩
  · rintro ⟨escapes, he⟩
    cases escapes
    case probabilities other => exact .inl ⟨other, he⟩
    case values matched agrees singular point sums other =>
      exact .inr ⟨_, matched, _, agrees, _, singular, _, point, _, sums, other, he⟩

end TuningData

namespace Tuned

variable {files : Files} {path text : String} {asked : Option String} {c : Checked} {mode : Mode} {e : Failure}

-- Loading a text as a document fails in another way than by fault of the data exactly if something escapes of the
-- document or of the data that are read from it.
theorem load_escapes (document : Format.ofFile (FilePath.normalize path) asked = .ok .json)
    (there : files (FilePath.normalize path) = .ok text) : Escapes OfData (load files c mode path asked) e ↔
      ∃ fields, Json.read? text = some (.object fields) ∧ (TuningData.EscapingTuning (.object fields) e ∨
        ∃ data, TuningData.ofJson (.object fields) = .ok data ∧ data.EscapingData c mode ∧ e = .wrongKind) := by
  have read : load files c mode path asked = TuningData.ofText (FilePath.normalize path) .json text >>= (·.tune c mode) := by
    simp only [load, TuningData.read, document, there]
    rfl
  rw [read]
  simp only [TuningData.ofText]
  cases Json.read? text
  case none => exact iff_of_false (Fails.error (.data _)).not_escapes (by simp)
  case some doc =>
    cases doc
    case object fields =>
      simp only [Checks.escapes_bind, TuningData.ofJson_escapes, TuningData.tune_escapes, Option.some.injEq,
        Json.object.injEq, exists_eq_left']
    all_goals exact iff_of_false (Fails.error (.data _)).not_escapes (by simp)

end Tuned

end BoltzmannSampling
