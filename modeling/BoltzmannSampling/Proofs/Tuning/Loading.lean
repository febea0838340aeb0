import Mathlib
import BoltzmannSampling.Proofs.Assoc
import BoltzmannSampling.Proofs.Checks
import BoltzmannSampling.Proofs.Tuning.Rows
import BoltzmannSampling.Tuning.Loading

/-!
What loading accepts. Tuning data become a tuned system exactly if their names are those of the system and the tuned
system passes every check of its numbers. A tuned system that passes them is loaded again, unchanged, from all data
that record it.
-/

namespace BoltzmannSampling

namespace TuningData

variable {data : TuningData} {s : Specification} {c : Checked} {mode : Mode} {given : List (String × Float)} {x z : Float}

def isProbability (p : Float) : Bool := p.isFinite && 0 ≤ p

-- The probabilities given for the constructors of a type.
def vectorIn (given : List (String × Float)) (t : TypeDef) : List Float :=
  t.constructors.map fun c => (Assoc.get? given c.name).getD 0

-- What loading checks of the probabilities of a type.
structure IsVector (ps : List Float) : Prop where
  probable : ∀ p ∈ ps, isProbability p
  total    : ¬(Scalar.pairwiseSum ps - 1).abs > tolerance

theorem checkProbability_eq_ok {name : String} {p : Float} :
    checkProbability (name, p) = .ok () ↔ isProbability p := by
  simp only [checkProbability, isProbability]
  split <;> simp_all

theorem vectorOf_eq_ok {t : TypeDef} {vector : String × List Float} :
    vectorOf given t = .ok vector ↔ vector = (t.name, vectorIn given t) ∧ IsVector (vectorIn given t) := by
  have entries : (t.constructors.map fun c => (c.name, (Assoc.get? given c.name).getD 0)).map (·.2) = vectorIn given t :=
    List.map_map
  have checks : (∀ e ∈ t.constructors.map fun c => (c.name, (Assoc.get? given c.name).getD 0),
      checkProbability e = .ok ()) ↔ ∀ p ∈ vectorIn given t, isProbability p := by
    simp only [vectorIn, List.forall_mem_map, checkProbability_eq_ok]
  simp only [vectorOf, Checks.bind_eq_ok, Checks.forM_eq_ok, checks, entries]
  constructor
  · rintro ⟨-, probable, h⟩
    split at h
    case isTrue        => cases h
    case isFalse total => exact ⟨(Except.ok.inj h).symm, probable, total⟩
  · rintro ⟨rfl, probable, total⟩
    exact ⟨(), probable, if_neg total⟩

theorem vectors_eq_ok {ts : List TypeDef} {vectors : List (String × List Float)} :
    ts.mapM (vectorOf given) = .ok vectors ↔
      vectors = ts.map (fun t => (t.name, vectorIn given t)) ∧ ∀ t ∈ ts, IsVector (vectorIn given t) := by
  simp only [Checks.mapM_eq_ok, vectorOf_eq_ok]
  constructor
  · intro h
    induction h
    case nil => simp
    case cons hv _ hi => exact ⟨by rw [hv.1, hi.1, List.map_cons], List.forall_mem_cons.mpr ⟨hv.2, hi.2⟩⟩
  · rintro ⟨rfl, h⟩
    exact List.forall₂_map_right_iff.mpr <| List.forall₂_same.mpr fun t ht => ⟨rfl, h t ht⟩

theorem matching_eq_ok : data.matching s = .ok given ↔ data.probabilities.texts? = some given ∧
    mismatch? s.constructorNames (given.map (·.1)) (data.duplicated.filterMap Json.text?) = none := by
  simp only [matching]
  split
  case h_1 h => simp [h]
  case h_2 h =>
    rw [h, Option.some.injEq]
    split
    case h_1 hm =>
      refine ⟨nofun, ?_⟩
      rintro ⟨rfl, none⟩
      exact nomatch hm.symm.trans none
    case h_2 hm =>
      refine ⟨fun he => ?_, fun he => congrArg _ he.1⟩
      cases he
      exact ⟨rfl, hm⟩

theorem positiveSingularity_eq_ok :
    data.positiveSingularity = .ok x ↔ data.singularity = some x ∧ isPositive x := by
  simp only [positiveSingularity]
  split
  case h_2 h => simp [h]
  case h_1 h =>
    rw [h, Option.some.injEq]
    split
    case isTrue  => grind
    case isFalse => grind

theorem positiveParameter_eq_ok :
    data.positiveParameter x = .ok z ↔ data.parameter.getD x = z ∧ isPositive z := by
  simp only [positiveParameter]
  split
  case isTrue  => grind
  case isFalse => grind

theorem positiveValues_eq_ok {values : List (String × Float)} : data.positiveValues s = .ok values ↔
    data.values.texts? = some values ∧ ∀ v ∈ values, v.1 ∈ s.names ∧ isPositive v.2 := by
  simp only [positiveValues]
  split
  case h_1 h => simp [h]
  case h_2 given h =>
    rw [h, Option.some.injEq]
    have known : ((given.map (·.1)).filter (!s.names.contains ·)).isEmpty = true ↔ ∀ v ∈ given, v.1 ∈ s.names := by
      simp [List.filter_eq_nil_iff]
    have positive {v : String × Float} :
        (if isPositive v.2 then .ok () else .error (.data (.value v.1 v.2)) : Except Failure Unit) = .ok () ↔
          isPositive v.2 := by
      split <;> simp_all
    split
    case isTrue unknown =>
      refine ⟨nofun, ?_⟩
      rintro ⟨rfl, h⟩
      rw [known.mpr fun v hv => (h v hv).1] at unknown
      cases unknown
    case isFalse hu =>
      have hk : ∀ v ∈ given, v.1 ∈ s.names := known.mp (by simpa using hu)
      simp only [Checks.bind_eq_ok, Checks.forM_eq_ok, positive, Except.ok.injEq]
      constructor
      · rintro ⟨-, hp, rfl⟩
        exact ⟨rfl, fun v hv => ⟨hk v hv, hp v hv⟩⟩
      · rintro ⟨rfl, h⟩
        exact ⟨(), fun v hv => (h v hv).2, rfl⟩

end TuningData

namespace Tuned

variable {data : TuningData} {c : Checked} {mode : Mode} {tuned : Tuned}

-- The numbers of a tuned system pass every check of loading.
structure Valid (tuned : Tuned) : Prop where
  singularity   : TuningData.isPositive tuned.singularity
  parameter     : TuningData.isPositive tuned.parameter
  probabilities : ∀ ps ∈ tuned.probabilities, TuningData.IsVector ps
  values        : ∀ v ∈ tuned.values, v.1 ∈ tuned.system.names ∧ TuningData.isPositive v.2

theorem ofVectors_eq_ok {α : Type} {tuned : Tuned α} {f : TypeDef → List α} {singularity parameter : α}
    {values : List (String × α)} (distinct : c.system.names.Nodup)
    (lengths : ∀ t ∈ c.system.types, (f t).length = t.constructors.length) :
    ofVectors c mode singularity parameter values (c.system.types.map fun t => (t.name, f t)) = .ok tuned ↔
      tuned.system = c.system ∧ tuned.classification = c.classification ∧ tuned.mode = mode ∧
        tuned.singularity = singularity ∧ tuned.parameter = parameter ∧ tuned.values = values ∧
        tuned.probabilities = c.system.types.map f := by
  have found : (c.system.types.map fun t =>
      (Assoc.get? (c.system.types.map fun t => (t.name, f t)) t.name).getD []) = c.system.types.map f :=
    List.map_congr_left fun t ht => by rw [Assoc.get?_map distinct f ht, Option.getD_some]
  have aligned : (c.system.types.map f).map List.length = c.system.types.map (·.constructors.length) := by
    rw [List.map_map]
    exact List.map_congr_left lengths
  simp only [ofVectors, found, aligned, dite_true, Except.ok.injEq]
  constructor
  · rintro rfl
    exact ⟨rfl, rfl, rfl, rfl, rfl, rfl, rfl⟩
  · obtain ⟨⟩ := tuned
    rintro ⟨rfl, rfl, rfl, rfl, rfl, rfl, rfl⟩
    rfl

-- Data are loaded exactly if the names match and the numbers pass, and what is loaded is what they hold.
theorem tune_eq_ok (distinct : c.system.names.Nodup) : data.tune c mode = .ok tuned ↔
    tuned.system = c.system ∧ tuned.classification = c.classification ∧ tuned.mode = mode ∧
      data.checkMode c mode = .ok () ∧ data.singularity = some tuned.singularity ∧
      data.parameter.getD tuned.singularity = tuned.parameter ∧ data.values.texts? = some tuned.values ∧
      (∃ given, data.matching c.system = .ok given ∧
        tuned.probabilities = c.system.types.map (TuningData.vectorIn given)) ∧ tuned.Valid := by
  have lengths (given : List (String × Float)) : ∀ t ∈ c.system.types,
      (TuningData.vectorIn given t).length = t.constructors.length := fun t _ => List.length_map _
  simp only [TuningData.tune, Checks.bind_eq_ok, TuningData.vectors_eq_ok, TuningData.positiveSingularity_eq_ok,
    TuningData.positiveParameter_eq_ok, TuningData.positiveValues_eq_ok]
  constructor
  · rintro ⟨given, hm, ⟨⟩, agrees, ρ, ⟨hs, positive⟩, z, ⟨hz, positive'⟩, _, ⟨rfl, vectors⟩, values, ⟨hv, known⟩, h⟩
    obtain ⟨system, classification, rfl, rfl, rfl, rfl, probabilities⟩ :=
      (ofVectors_eq_ok distinct (lengths given)).mp h
    refine ⟨system, classification, rfl, agrees, hs, hz, hv, ⟨given, hm, probabilities⟩, positive, positive', ?_, system ▸ known⟩
    rw [probabilities]
    exact List.forall_mem_map.mpr vectors
  · rintro ⟨system, classification, rfl, agrees, hs, hz, hv, ⟨given, hm, probabilities⟩, valid⟩
    have vectors := List.forall_mem_map.mp (probabilities ▸ valid.probabilities)
    exact ⟨given, hm, (), agrees, _, ⟨hs, valid.singularity⟩, _, ⟨hz, valid.parameter⟩, _, ⟨rfl, vectors⟩, _,
      ⟨hv, system ▸ valid.values⟩,
      (ofVectors_eq_ok distinct (lengths given)).mpr ⟨system, classification, rfl, rfl, rfl, rfl, probabilities⟩⟩

theorem map_vectorIn (resolved : tuned.system.Resolved) :
    tuned.system.types.map (TuningData.vectorIn tuned.constructorProbabilities) = tuned.probabilities := by
  rw [← rows_types, ← rows_probabilities, List.map_map]
  refine List.map_congr_left fun row hr => ?_
  have found := congrArg (List.map (·.getD 0)) <| map_probability? resolved hr
  rw [List.map_map, List.map_map] at found
  exact found.trans (List.map_id _)

end Tuned

namespace TuningData

variable {data : TuningData} {c : Checked} {tuned : Tuned} {values : List (String × Float)}

theorem mismatch?_self (names : List String) : mismatch? names names [] = none := by
  have missing : sortedNames (names.filter (!names.contains ·)) = [] := by
    rw [List.filter_eq_nil_iff.mpr (by simp)]
    simp [sortedNames]
  rw [mismatch?, missing]
  rfl

-- Data that hold what a tuned system holds, with its values in some order.
structure Records (data : TuningData) (tuned : Tuned) (values : List (String × Float)) : Prop where
  singularity   : data.singularity = some tuned.singularity
  parameter     : data.parameter = some tuned.parameter
  probabilities : data.probabilities.texts? = some tuned.constructorProbabilities
  duplicated    : data.duplicated = []
  mode          : data.mode = some tuned.mode ∨ data.mode = none
  entries       : data.values.texts? = some values
  same          : values.Perm tuned.values

-- A tuned system that passes the checks is loaded again from the data that record it.
theorem Records.tune_eq (h : data.Records tuned values) (resolved : c.system.Resolved) (valid : tuned.Valid)
    (system : tuned.system = c.system) (classification : tuned.classification = c.classification) :
    data.tune c tuned.mode = .ok { tuned with values } := by
  have matching : data.matching c.system = .ok tuned.constructorProbabilities := by
    refine matching_eq_ok.mpr ⟨h.probabilities, ?_⟩
    rw [Tuned.constructorProbabilities_names, system, h.duplicated]
    exact mismatch?_self _
  have agrees : data.checkMode c tuned.mode = .ok () := by
    rw [checkMode]
    rcases h.mode with hm | hm
    · simp [hm]
    · simp [hm]
  refine (Tuned.tune_eq_ok resolved.names).mpr ⟨system, classification, rfl, agrees, h.singularity, ?_, h.entries,
    ⟨_, matching, ?_⟩, valid.singularity, valid.parameter, valid.probabilities, ?_⟩
  · rw [h.parameter, Option.getD_some]
  · rw [← system, Tuned.map_vectorIn (system ▸ resolved)]
  · exact fun v hv => valid.values v (h.same.mem_iff.mp hv)

end TuningData

end BoltzmannSampling
