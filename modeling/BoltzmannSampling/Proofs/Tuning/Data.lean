import Mathlib
import BoltzmannSampling.Proofs.Assoc
import BoltzmannSampling.Proofs.Checks
import BoltzmannSampling.Tuning.Data

/-!
Numbers by name. Those under texts are put like named values of any kind, and however a file is laid out, the names
of its values differ.
-/

namespace BoltzmannSampling

namespace Numbers

variable {numbers : Numbers} {entries : List (String × Float)} {name : Json} {x : Float}

def ofTexts (entries : List (String × Float)) : Numbers := entries.map fun (name, x) => (.text name, x)

theorem texts?_eq_some : numbers.texts? = some entries ↔ numbers = ofTexts entries := by
  rw [texts?, Checks.mapM_eq_some]
  constructor
  · intro h
    induction h
    case nil => rfl
    case cons n e _ _ he _ hi =>
      obtain ⟨name, x⟩ := n
      cases name <;> cases he
      rw [hi]
      rfl
  · rintro rfl
    exact List.forall₂_map_left_iff.mpr <| List.forall₂_same.mpr fun _ _ => rfl

theorem texts?_ofTexts (entries : List (String × Float)) : (ofTexts entries).texts? = some entries :=
  texts?_eq_some.mpr rfl

theorem put_ofTexts (entries : List (String × Float)) (name : String) (x : Float) :
    (ofTexts entries).put (.text name) x = ofTexts (Assoc.put entries name x) := by
  induction entries
  case nil => rfl
  case cons e entries hi =>
    have named : sameName (.text e.1) (.text name) = (e.1 == name) := rfl
    simp only [ofTexts, List.map_cons, put, Assoc.put] at hi ⊢
    by_cases same : (e.1 == name) = true
    case pos =>
      rw [if_pos same, if_pos (named.trans same)]
      rfl
    case neg =>
      rw [if_neg same, if_neg (named ▸ same), hi]
      rfl

theorem has_ofTexts {name : String} : (ofTexts entries).has (.text name) ↔ name ∈ entries.map (·.1) := by
  simp [has, ofTexts, sameName]

theorem put_names (numbers : Numbers) (name : Json) (x : Float) : (numbers.put name x).map (·.1) =
    if numbers.has name then numbers.map (·.1) else numbers.map (·.1) ++ [name] := by
  induction numbers
  case nil => rfl
  case cons n numbers hi =>
    have step : has (n :: numbers) name = (sameName n.1 name || has numbers name) := List.any_cons
    simp only [put, step]
    cases sameName n.1 name
    case true => rfl
    case false =>
      simp only [Bool.false_eq_true, if_false, Bool.false_or, List.map_cons, hi]
      split <;> rfl

-- No two names are one.
def Distinct (numbers : Numbers) : Prop := (numbers.map (·.1)).Pairwise fun a b => sameName a b = false

theorem Distinct.put (h : numbers.Distinct) (name : Json) (x : Float) : (numbers.put name x).Distinct := by
  rw [Distinct, put_names]
  split
  case isTrue => exact h
  case isFalse fresh =>
    refine List.pairwise_append.mpr ⟨h, List.pairwise_singleton .., ?_⟩
    simpa [has] using fresh

theorem distinct_ofTexts : (ofTexts entries).Distinct ↔ (entries.map (·.1)).Nodup := by
  simp [Distinct, ofTexts, List.Nodup, List.pairwise_map, sameName]

end Numbers

namespace TuningData

open Numbers

variable {place : Json → Quantity} {doc entry name : Json} {c c' : Contents}

theorem numbersOf_eq_ok {entries : List (String × Json)} {numbers : Numbers} :
    numbersOf place entries = .ok numbers ↔
      List.Forall₂ (fun e n => n.1 = .text e.1 ∧ number (place (.text e.1)) e.2 = .ok n.2) entries numbers := by
  rw [numbersOf, Checks.mapM_eq_ok]
  refine iff_of_eq <| congrArg (List.Forall₂ · entries numbers) <| funext fun e => funext fun n => propext ?_
  rw [Checks.bind_eq_ok]
  constructor
  · rintro ⟨x, hx, h⟩
    cases h
    exact ⟨rfl, hx⟩
  · rintro ⟨hn, hx⟩
    exact ⟨n.2, hx, by rw [← hn]⟩

theorem names_numbersOf {entries : List (String × Json)} {numbers : Numbers}
    (h : numbersOf place entries = .ok numbers) : numbers.map (·.1) = (entries.map (·.1)).map Json.text := by
  have hs := numbersOf_eq_ok.mp h
  clear h
  induction hs
  case nil => rfl
  case cons h _ hi => simp only [List.map_cons, h.1, hi]

-- Names in a document that come from the entries of an object differ.
theorem distinct_numbersOf {entries : List (String × Json)} {numbers : Numbers}
    (distinct : (entries.map (·.1)).Nodup) (h : numbersOf place entries = .ok numbers) : numbers.Distinct := by
  rw [Distinct, names_numbersOf h, List.pairwise_map]
  exact distinct.imp fun hn => beq_eq_false_iff_ne.mpr hn

theorem distinct_valuesOf {numbers : Numbers} (h : valuesOf doc = .ok numbers) : numbers.Distinct := by
  simp only [valuesOf] at h
  split at h
  case h_1 =>
    cases h
    exact .nil
  case h_2 found _ =>
    split at h
    case isTrue =>
      cases h
      exact .nil
    case isFalse =>
      split at h
      case h_2 => cases h
      case h_1 entries he =>
        refine distinct_numbersOf ?_ h
        cases found <;> cases he
        exact (Assoc.ofFields_nodup _).sublist (List.filter_sublist.map _)

theorem values_addConstructor (h : addConstructor c entry = .ok c') : c'.values = c.values := by
  simp only [addConstructor] at h
  split at h
  case h_2 => cases h
  case h_1 =>
    split at h
    case isTrue  => cases h
    case isFalse =>
      obtain ⟨p, -, h⟩ := Checks.bind_eq_ok.mp h
      cases h
      rfl

theorem distinct_addValue {found : Option Json} (hc : c.values.Distinct) (h : addValue c name found = .ok c') :
    c'.values.Distinct := by
  obtain ⟨v, -, h⟩ := Checks.bind_eq_ok.mp h
  split at h
  case h_1 =>
    cases h
    exact hc
  case h_2 =>
    split at h
    case isFalse => cases h
    case isTrue  =>
      cases h
      exact hc.put ..

theorem distinct_addType (hc : c.values.Distinct) (h : addType c entry = .ok c') : c'.values.Distinct := by
  simp only [addType] at h
  split at h
  case h_1 => cases h
  case h_2 =>
    obtain ⟨_, hv, h⟩ := Checks.bind_eq_ok.mp h
    obtain ⟨_, -, h⟩ := Checks.bind_eq_ok.mp h
    refine Checks.foldlM_induction (motive := fun c => c.values.Distinct) ?_ h (distinct_addValue hc hv)
    intro c hc entry _ c' h
    rwa [values_addConstructor h]

theorem distinct_ofJson {data : TuningData} (h : ofJson doc = .ok data) : data.values.Distinct := by
  obtain ⟨_, -, h⟩ := Checks.bind_eq_ok.mp h
  obtain ⟨c, hc, h⟩ := Checks.bind_eq_ok.mp h
  obtain ⟨_, -, h⟩ := Checks.bind_eq_ok.mp h
  obtain ⟨_, -, h⟩ := Checks.bind_eq_ok.mp h
  cases h
  simp only [contentsOf] at hc
  split at hc
  case h_1 =>
    simp only [ofNames] at hc
    split at hc
    case h_2 => cases hc
    case h_1 =>
      obtain ⟨_, -, hc⟩ := Checks.bind_eq_ok.mp hc
      obtain ⟨_, hv, hc⟩ := Checks.bind_eq_ok.mp hc
      cases hc
      exact distinct_valuesOf hv
  case h_2 =>
    split at hc
    case h_2 => cases hc
    case h_1 =>
      exact Checks.foldlM_induction (motive := fun c => c.values.Distinct)
        (fun _ hc _ _ _ h => distinct_addType hc h) hc .nil

theorem distinct_valuesOfTable (t : Table) : (valuesOfTable t).Distinct := by
  simp only [valuesOfTable]
  split
  case h_2 => exact .nil
  case h_1 =>
    refine List.foldlRecOn _ _ (motive := Distinct) .nil fun found h entry _ => ?_
    cases entry.2
    case none => exact h
    case some => exact h.put ..

theorem distinct_ofTable {path : String} {t : Table} {data : TuningData} (h : ofTable path t = .ok data) :
    data.values.Distinct := by
  obtain ⟨_, -, h⟩ := Checks.bind_eq_ok.mp h
  obtain ⟨_, -, h⟩ := Checks.bind_eq_ok.mp h
  obtain ⟨_, -, h⟩ := Checks.bind_eq_ok.mp h
  dsimp only at h
  split at h
  case isTrue => cases h
  case isFalse =>
    obtain ⟨_, -, h⟩ := Checks.bind_eq_ok.mp h
    obtain ⟨_, -, h⟩ := Checks.bind_eq_ok.mp h
    cases h
    exact distinct_valuesOfTable t

theorem distinct_ofText {path text : String} {format : Format} {data : TuningData}
    (h : ofText path format text = .ok data) : data.values.Distinct := by
  cases format
  case csv =>
    simp only [ofText] at h
    split at h
    case h_1 => exact distinct_ofTable h
    case h_2 => cases h
  case json =>
    simp only [ofText] at h
    split at h
    case h_1 | h_3 => cases h
    case h_2       => exact distinct_ofJson h

-- However the data are laid out, every value has a name of its own.
theorem distinct_read {files : Files} {path : String} {asked : Option String} {data : TuningData}
    (h : read files path asked = .ok data) : data.values.Distinct := by
  obtain ⟨_, -, h⟩ := Checks.bind_eq_ok.mp h
  split at h
  case h_1 => exact distinct_ofText h
  case h_2 => cases h

end TuningData

end BoltzmannSampling
