import Mathlib
import BoltzmannSampling.Proofs.Derivation.WellFounded
import BoltzmannSampling.Proofs.Number.Binary64
import BoltzmannSampling.Proofs.Tuning.Loading
import BoltzmannSampling.Proofs.Tuning.Occurrences

/-!
What loading makes of a tuning file. If the names of constructors are not those of the system, each once, it tells
which are missing, unknown and repeated. Otherwise it takes the data for invalid exactly if one of their numbers or
names is, and if none is, it gives back the system with every number as it was read.
-/

namespace BoltzmannSampling

theorem pairwise_lt_eraseDups {names : List String} (sorted : names.Pairwise (· ≤ ·)) :
    names.eraseDups.Pairwise (· < ·) := by
  induction hn : names.length using Nat.strong_induction_on generalizing names
  case h n hi =>
    cases names
    case nil => exact .nil
    case cons name names =>
      have ⟨least, sorted⟩ := List.pairwise_cons.mp sorted
      have others := sorted.sublist (List.filter_sublist (p := fun m => !m == name))
      have shorter : (names.filter fun m => !m == name).length < n := by
        have := List.length_filter_le (fun m => !m == name) names
        rw [← hn, List.length_cons]
        omega
      rw [List.eraseDups_cons, List.pairwise_cons]
      refine ⟨fun m hm => ?_, hi _ shorter others rfl⟩
      have ⟨hm, ne⟩ := List.mem_filter.mp (List.mem_eraseDups.mp hm)
      exact lt_of_le_of_ne (least m hm) (by simpa using Ne.symm (by simpa using ne))

theorem pairwise_sortedNames (names : List String) : (sortedNames names).Pairwise (· < ·) := by
  let le (a b : String) : Bool := decide (a ≤ b)
  have trans a b c (hab : le a b) (hbc : le b c) : le a c :=
    decide_eq_true (le_trans (of_decide_eq_true hab) (of_decide_eq_true hbc))
  have total a b : le a b || le b a := by simpa [le] using le_total a b
  exact pairwise_lt_eraseDups <| (List.pairwise_mergeSort trans total names).imp of_decide_eq_true

theorem mem_sortedNames {names : List String} {name : String} : name ∈ sortedNames names ↔ name ∈ names := by
  rw [sortedNames, List.mem_eraseDups, List.mem_mergeSort]

namespace TuningData

variable {data : TuningData} {s : Specification} {c : Checked} {mode : Mode} {given values : List (String × Float)}
  {names duplicated : List String} {x p : Float} {tuned : Tuned}

theorem not_isPositive : ¬isPositive x ↔ x.isFinite = false ∨ x ≤ 0 := by
  cases finite : x.isFinite
  case false => simp [isPositive, finite]
  case true  => simpa [isPositive, finite] using (Binary64.compare_zero finite).1

theorem not_isProbability : ¬isProbability p ↔ p.isFinite = false ∨ p < 0 := by
  cases finite : p.isFinite
  case false => simp [isProbability, finite]
  case true  => simpa [isProbability, finite] using (Binary64.compare_zero finite).2

-- Under texts, what is reported as repeated is what occurs more than once.
theorem mem_repeated (tracks : Tracks data.probabilities data.duplicated names) {name : String} :
    name ∈ data.duplicated.filterMap Json.text? ↔ 2 ≤ names.count name := by
  rw [← tracks.repeats, List.mem_filterMap]
  constructor
  · rintro ⟨doc, hm, ht⟩
    cases doc <;> cases ht
    exact hm
  · exact fun hm => ⟨_, hm, rfl⟩

-- The names given are not those of the system, or one of the names that occur does so again.
def Differs (given : List (String × Float)) (s : Specification) (names : List String) : Prop :=
  (∃ name, ¬(name ∈ given.map (·.1) ↔ name ∈ s.constructorNames)) ∨ ∃ name, 2 ≤ names.count name

-- Why data that name the constructors of a system do not tune it.
inductive Invalid (data : TuningData) (c : Checked) (mode : Mode) (given values : List (String × Float)) : Prop
  | mode {recorded : Mode} (found : data.mode = some recorded) (other : recorded ≠ mode)
      (rational : c.classification = .rational)
  | absent (found : data.singularity = none)
  | singularity {x : Float} (found : data.singularity = some x) (bad : x.isFinite = false ∨ x ≤ 0)
  | parameter {x : Float} (found : data.parameter = some x) (bad : x.isFinite = false ∨ x ≤ 0)
  | probability {name : String} {p : Float} (found : (name, p) ∈ given) (bad : p.isFinite = false ∨ p < 0)
  | total {t : TypeDef} (found : t ∈ c.system.types)
      (off : (Scalar.pairwiseSum (vectorIn given t) - 1).abs > tolerance)
  | unknown {name : String} {x : Float} (found : (name, x) ∈ values) (other : name ∉ c.system.names)
  | value {name : String} {x : Float} (found : (name, x) ∈ values) (bad : x.isFinite = false ∨ x ≤ 0)

theorem isEmpty_sortedNames : (sortedNames names).isEmpty = true ↔ names = [] := by
  simp only [List.isEmpty_iff, List.eq_nil_iff_forall_not_mem, mem_sortedNames]

theorem mismatch?_eq_none {expected given : List String} : mismatch? expected given duplicated = none ↔
    (∀ name, name ∈ given ↔ name ∈ expected) ∧ duplicated = [] := by
  have missing : expected.filter (!given.contains ·) = [] ↔ ∀ name ∈ expected, name ∈ given := by
    simp [List.filter_eq_nil_iff]
  have extra : given.filter (!expected.contains ·) = [] ↔ ∀ name ∈ given, name ∈ expected := by
    simp [List.filter_eq_nil_iff]
  have agree : (∀ name, name ∈ given ↔ name ∈ expected) ↔
      (∀ name ∈ expected, name ∈ given) ∧ ∀ name ∈ given, name ∈ expected :=
    ⟨fun h => ⟨fun name => (h name).mpr, fun name => (h name).mp⟩, fun h name => ⟨h.2 name, h.1 name⟩⟩
  rw [mismatch?, agree, ← missing, ← extra, ← isEmpty_sortedNames, ← isEmpty_sortedNames, ← List.isEmpty_iff]
  split
  case isTrue h  => simpa [and_assoc] using h
  case isFalse h => simpa [and_assoc] using h

theorem mismatch?_eq_some {expected given : List String} (h : mismatch? expected given duplicated ≠ none) :
    mismatch? expected given duplicated = some (.mismatch (sortedNames (expected.filter (!given.contains ·)))
      (sortedNames (given.filter (!expected.contains ·))) (sortedNames duplicated)) := by
  rw [mismatch?] at h ⊢
  split at h
  case isTrue          => exact absurd rfl h
  case isFalse differs => exact if_neg differs

theorem repeated_eq_nil (tracks : Tracks data.probabilities data.duplicated names) :
    data.duplicated.filterMap Json.text? = [] ↔ ¬∃ name, 2 ≤ names.count name := by
  simp only [List.eq_nil_iff_forall_not_mem, mem_repeated tracks, not_exists]

-- The names are those of the system, each once, exactly if the data go on to the other checks.
theorem matching_of_not_differs (named : data.probabilities = .ofTexts given)
    (tracks : Tracks data.probabilities data.duplicated names) (agrees : ¬Differs given s names) :
    data.matching s = .ok given := by
  rw [Differs, not_or, not_exists_not] at agrees
  exact matching_eq_ok.mpr ⟨Numbers.texts?_eq_some.mpr named,
    mismatch?_eq_none.mpr ⟨agrees.1, (repeated_eq_nil tracks).mpr agrees.2⟩⟩

theorem matching_of_differs (named : data.probabilities = .ofTexts given)
    (tracks : Tracks data.probabilities data.duplicated names) (differs : Differs given s names) :
    data.matching s = .error (.tuning (.mismatch
      (sortedNames (s.constructorNames.filter (!(given.map (·.1)).contains ·)))
      (sortedNames ((given.map (·.1)).filter (!s.constructorNames.contains ·)))
      (sortedNames (data.duplicated.filterMap Json.text?)))) := by
  have some : mismatch? s.constructorNames (given.map (·.1)) (data.duplicated.filterMap Json.text?) ≠ none := by
    rw [Ne, mismatch?_eq_none, repeated_eq_nil tracks, not_and_or, not_forall, not_not]
    exact differs
  simp only [matching, Numbers.texts?_eq_some.mpr named, mismatch?_eq_some some]

-- Where a check fails, it finds fault with the data.
def Blames {α : Type} (check : Except Failure α) : Prop := ∀ e, check = .error e → ∃ fault, e = .data fault

theorem Blames.bind {α β : Type} {check : Except Failure α} {next : α → Except Failure β} (h : Blames check)
    (hs : ∀ a, Blames (next a)) : Blames (check >>= next) := by
  intro e he
  rcases Checks.bind_eq_error.mp he with he | ⟨a, -, he⟩
  · exact h e he
  · exact hs a e he

theorem Blames.forM {α : Type} {check : α → Except Failure Unit} (h : ∀ x, Blames (check x)) (xs : List α) :
    Blames (xs.forM check) :=
  fun e he => have ⟨x, _, hx⟩ := Checks.exists_of_forM_eq_error he; h x e hx

theorem Blames.mapM {α β : Type} {f : α → Except Failure β} (h : ∀ x, Blames (f x)) (xs : List α) :
    Blames (xs.mapM f) :=
  fun e he => have ⟨x, _, hx⟩ := Checks.exists_of_mapM_eq_error he; h x e hx

theorem blames_ok {α : Type} (x : α) : Blames (.ok x) := nofun

theorem blames_data {α : Type} (fault : DataFault) : Blames (α := α) (.error (.data fault)) := fun _ h =>
  ⟨fault, (Except.error.inj h).symm⟩

theorem Blames.ite {α : Type} {p : Prop} [Decidable p] {a b : Except Failure α} (ha : Blames a) (hb : Blames b) :
    Blames (if p then a else b) := by
  split
  · exact ha
  · exact hb

theorem blames_vectorOf (t : TypeDef) : Blames (vectorOf given t) :=
  .bind (.forM (fun _ => .ite (blames_ok _) (blames_data _)) _) fun _ => .ite (blames_data _) (blames_ok _)

theorem blames_positiveValues (valued : data.values = .ofTexts values) : Blames (data.positiveValues s) := by
  have each (v : String × Float) :
      Blames (if isPositive v.2 then .ok () else .error (.data (.value v.1 v.2)) : Except Failure Unit) :=
    .ite (blames_ok _) (blames_data _)
  simp only [positiveValues, Numbers.texts?_eq_some.mpr valued]
  split
  · exact blames_data _
  · exact .bind (.forM each values) fun _ => blames_ok _

theorem blames_ofVectors {singularity parameter : Float} {vectors : List (String × List Float)} :
    Blames (Tuned.ofVectors c mode singularity parameter values vectors) := by
  simp only [Tuned.ofVectors]
  split
  · exact blames_ok _
  · exact blames_data _

theorem blames_checkMode : Blames (data.checkMode c mode) := by
  rw [checkMode]
  split
  · exact .ite (blames_data _) (blames_ok _)
  · exact blames_ok _

theorem blames_positiveSingularity : Blames data.positiveSingularity := by
  rw [positiveSingularity]
  split
  · exact .ite (blames_ok _) (blames_data _)
  · exact blames_data _

theorem blames_positiveParameter (x : Float) : Blames (data.positiveParameter x) := .ite (blames_ok _) (blames_data _)

-- Past the names, every check that fails finds fault with the data.
theorem blames_tune (matched : data.matching c.system = .ok given) (valued : data.values = .ofTexts values) :
    Blames (data.tune c mode) := by
  rw [tune, matched]
  exact .bind (blames_ok given) fun _ => .bind blames_checkMode fun _ => .bind blames_positiveSingularity fun _ =>
    .bind (blames_positiveParameter _) fun _ => .bind (.mapM blames_vectorOf _) fun _ =>
    .bind (blames_positiveValues valued) fun _ => blames_ofVectors

-- The number given under a name.
def numberOf (given : List (String × Float)) (name : String) : Float := (Assoc.get? given name).getD 0

theorem numberOf_eq (distinct : (given.map (·.1)).Nodup) {entry : String × Float} (h : entry ∈ given) :
    numberOf given entry.1 = entry.2 := by
  rw [numberOf, Assoc.get?_of_mem distinct h, Option.getD_some]

theorem mem_given (distinct : (given.map (·.1)).Nodup)
    (agrees : ∀ name, name ∈ given.map (·.1) ↔ name ∈ s.constructorNames) {name : String} {x : Float} :
    (name, x) ∈ given ↔ name ∈ s.constructorNames ∧ x = numberOf given name := by
  rw [← agrees]
  constructor
  · exact fun h => ⟨List.mem_map_of_mem h, (numberOf_eq distinct h).symm⟩
  · rintro ⟨hm, rfl⟩
    obtain ⟨entry, he, rfl⟩ := List.mem_map.mp hm
    exact (numberOf_eq distinct he).symm ▸ he

-- The probabilities of all types are the numbers given.
theorem forall_vectorIn (distinct : (given.map (·.1)).Nodup)
    (agrees : ∀ name, name ∈ given.map (·.1) ↔ name ∈ s.constructorNames) {P : Float → Prop} :
    (∀ t ∈ s.types, ∀ p ∈ vectorIn given t, P p) ↔ ∀ entry ∈ given, P entry.2 := by
  constructor
  · intro h entry he
    obtain ⟨⟨t, k⟩, hp, hn⟩ := List.mem_map.mp <| (agrees entry.1).mp (List.mem_map_of_mem he)
    have ⟨ht, hk⟩ := Specification.mem_productions.mp hp
    rw [← numberOf_eq distinct he, ← hn]
    exact h t ht _ (List.mem_map_of_mem hk)
  · intro h t ht p hp
    obtain ⟨k, hk, rfl⟩ := List.mem_map.mp hp
    have known : k.name ∈ s.constructorNames := List.mem_map_of_mem <| Specification.mem_productions.mpr ⟨ht, hk⟩
    exact h _ <| (mem_given distinct agrees).mpr ⟨known, rfl⟩

-- What loading asks of the data, if nothing is wrong with them.
structure Sound (data : TuningData) (c : Checked) (mode : Mode) (given values : List (String × Float)) : Prop where
  mode          : ∀ recorded, data.mode = some recorded → ¬(recorded ≠ mode ∧ c.classification = .rational)
  singularity   : ∃ x, data.singularity = some x ∧ isPositive x
  parameter     : ∀ x, data.parameter = some x → isPositive x
  probabilities : ∀ entry ∈ given, isProbability entry.2
  totals        : ∀ t ∈ c.system.types, ¬(Scalar.pairwiseSum (vectorIn given t) - 1).abs > tolerance
  values        : ∀ v ∈ values, v.1 ∈ c.system.names ∧ isPositive v.2

theorem Sound.not_invalid (h : Sound data c mode given values) : ¬Invalid data c mode given values := by
  intro invalid
  cases invalid
  case mode recorded found other rational => exact h.mode recorded found ⟨other, rational⟩
  case absent found =>
    have ⟨_, given, _⟩ := h.singularity
    exact nomatch found.symm.trans given
  case singularity x found bad =>
    have ⟨_, given, positive⟩ := h.singularity
    exact not_isPositive.mpr bad (Option.some.inj (given.symm.trans found) ▸ positive)
  case parameter x found bad        => exact not_isPositive.mpr bad (h.parameter x found)
  case probability name p found bad => exact not_isProbability.mpr bad (h.probabilities (name, p) found)
  case total t found off            => exact h.totals t found off
  case unknown name x found other   => exact other (h.values (name, x) found).1
  case value name x found bad       => exact not_isPositive.mpr bad (h.values (name, x) found).2

theorem sound_of_not_invalid (h : ¬Invalid data c mode given values) : Sound data c mode given values where
  mode recorded found := fun ⟨other, rational⟩ => h (.mode found other rational)
  singularity         := by
    cases found : data.singularity
    case none   => exact absurd (.absent found) h
    case some x => exact ⟨x, rfl, of_not_not fun bad => h (.singularity found (not_isPositive.mp bad))⟩
  parameter x found   := of_not_not fun bad => h (.parameter found (not_isPositive.mp bad))
  probabilities e he  := of_not_not fun bad => h (.probability he (not_isProbability.mp bad))
  totals t ht         := fun off => h (.total ht off)
  values v hv         := ⟨of_not_not fun other => h (.unknown hv other),
    of_not_not fun bad => h (.value hv (not_isPositive.mp bad))⟩

theorem checkMode_eq_ok : data.checkMode c mode = .ok () ↔
    ∀ recorded, data.mode = some recorded → ¬(recorded ≠ mode ∧ c.classification = .rational) := by
  rw [checkMode]
  cases data.mode
  case none   => simp
  case some m => simp

section

-- Data that name the constructors of the system, each once.
variable (distinctNames : c.system.names.Nodup) (distinct : (given.map (·.1)).Nodup)
  (agrees : ∀ name, name ∈ given.map (·.1) ↔ name ∈ c.system.constructorNames)
  (matched : data.matching c.system = .ok given) (valued : data.values = .ofTexts values)

include distinctNames distinct agrees matched valued

theorem sound_of_tune (h : data.tune c mode = .ok tuned) : Sound data c mode given values := by
  obtain ⟨system, -, -, agreed, singularity, parameter, texts, ⟨found, hm, vectors⟩, valid⟩ :=
    (Tuned.tune_eq_ok distinctNames).mp h
  obtain rfl := Except.ok.inj (matched.symm.trans hm)
  obtain rfl := Option.some.inj ((Numbers.texts?_eq_some.mpr valued).symm.trans texts)
  have each : ∀ t ∈ c.system.types, IsVector (vectorIn given t) :=
    fun t ht => valid.probabilities _ (vectors ▸ List.mem_map_of_mem ht)
  exact {
    mode          := checkMode_eq_ok.mp agreed
    singularity   := ⟨_, singularity, valid.singularity⟩
    parameter     := fun x hx => by
      rw [hx, Option.getD_some] at parameter
      exact parameter ▸ valid.parameter
    probabilities := (forall_vectorIn distinct agrees).mp fun t ht => (each t ht).probable
    totals        := fun t ht => (each t ht).total
    values        := system ▸ valid.values }

theorem tune_of_sound (sound : Sound data c mode given values) :
    ∃ tuned, data.tune c mode = .ok tuned ∧ tuned.system = c.system ∧ tuned.classification = c.classification ∧
      tuned.mode = mode ∧ data.singularity = some tuned.singularity ∧
      tuned.parameter = data.parameter.getD tuned.singularity ∧ tuned.values = values ∧
      tuned.probabilities = c.system.types.map (vectorIn given) := by
  have ⟨ρ, singularity, positive⟩ := sound.singularity
  have parameter : isPositive (data.parameter.getD ρ) := by
    cases found : data.parameter
    case none   => exact positive
    case some x => exact sound.parameter x found
  have probable : ∀ t ∈ c.system.types, ∀ p ∈ vectorIn given t, isProbability p :=
    (forall_vectorIn distinct agrees).mpr sound.probabilities
  have aligned : (c.system.types.map (vectorIn given)).map List.length =
      c.system.types.map (·.constructors.length) := by
    rw [List.map_map]
    exact List.map_congr_left fun t _ => List.length_map _
  refine ⟨⟨c.system, c.classification, mode, ρ, data.parameter.getD ρ, values, _, aligned⟩,
    (Tuned.tune_eq_ok distinctNames).mpr ?_, rfl, rfl, rfl, singularity, rfl, rfl, rfl⟩
  refine ⟨rfl, rfl, rfl, checkMode_eq_ok.mpr sound.mode, singularity, rfl, Numbers.texts?_eq_some.mpr valued,
    ⟨given, matched, rfl⟩, positive, parameter, ?_, sound.values⟩
  exact List.forall_mem_map.mpr fun t ht => ⟨probable t ht, sound.totals t ht⟩

theorem tune_error_iff : (∃ fault, data.tune c mode = .error (.data fault)) ↔ Invalid data c mode given values := by
  constructor
  · rintro ⟨fault, h⟩
    by_contra valid
    have ⟨_, ht, _⟩ := tune_of_sound distinctNames distinct agrees matched valued (sound_of_not_invalid valid)
    cases ht.symm.trans h
  · intro invalid
    cases ht : data.tune c mode
    case ok    => exact absurd invalid (sound_of_tune distinctNames distinct agrees matched valued ht).not_invalid
    case error =>
      have ⟨fault, hf⟩ := blames_tune matched valued _ ht
      exact ⟨fault, hf ▸ rfl⟩

end

end TuningData

namespace Tuned

open TuningData

variable {files : Files} {c : Checked} {mode : Mode} {path : String} {asked : Option String} {data : TuningData}
  {given values : List (String × Float)}

theorem tune_of_differs (mode : Mode) {names : List String} (named : data.probabilities = .ofTexts given)
    (tracks : Tracks data.probabilities data.duplicated names) (differs : Differs given c.system names) :
    ∃ missing extra duplicated, data.tune c mode = .error (.tuning (.mismatch missing extra duplicated)) ∧
      (missing.Pairwise (· < ·) ∧ ∀ name, name ∈ missing ↔ name ∈ c.system.constructorNames ∧ name ∉ given.map (·.1)) ∧
      (extra.Pairwise (· < ·) ∧ ∀ name, name ∈ extra ↔ name ∈ given.map (·.1) ∧ name ∉ c.system.constructorNames) ∧
      (duplicated.Pairwise (· < ·) ∧ ∀ name, name ∈ duplicated ↔ 2 ≤ names.count name) := by
  have outside (xs ys : List String) (name : String) :
      name ∈ sortedNames (xs.filter (!ys.contains ·)) ↔ name ∈ xs ∧ name ∉ ys := by
    rw [mem_sortedNames, List.mem_filter, Bool.not_eq_true', List.contains_eq_mem, decide_eq_false_iff_not]
  refine ⟨_, _, _, ?_, ⟨pairwise_sortedNames _, outside _ _⟩, ⟨pairwise_sortedNames _, outside _ _⟩,
    pairwise_sortedNames (data.duplicated.filterMap Json.text?), fun name => ?_⟩
  · rw [tune, matching_of_differs named tracks differs]
    rfl
  · rw [mem_sortedNames, mem_repeated tracks]

-- Loading tells names that differ, then data that are invalid, and accepts all others as they are.
theorem load_outcome {entries : List (Except Json Declaration)} {annotations : List (String × Json)}
    (declared : Specification.ofDeclarations entries annotations = .ok c.system)
    (read : TuningData.read files path asked = .ok data) (named : data.probabilities = .ofTexts given)
    (valued : data.values = .ofTexts values) (mode : Mode) :
    ((∃ missing extra duplicated, load files c mode path asked = .error (.tuning (.mismatch missing extra duplicated))) ↔
      Differs given c.system (namesInFile files path asked)) ∧
    (∀ missing extra duplicated, load files c mode path asked = .error (.tuning (.mismatch missing extra duplicated)) →
      (missing.Pairwise (· < ·) ∧ ∀ name, name ∈ missing ↔ name ∈ c.system.constructorNames ∧ name ∉ given.map (·.1)) ∧
      (extra.Pairwise (· < ·) ∧ ∀ name, name ∈ extra ↔ name ∈ given.map (·.1) ∧ name ∉ c.system.constructorNames) ∧
      (duplicated.Pairwise (· < ·) ∧ ∀ name, name ∈ duplicated ↔ 2 ≤ (namesInFile files path asked).count name)) ∧
    (¬Differs given c.system (namesInFile files path asked) →
      ((∃ fault, load files c mode path asked = .error (.data fault)) ↔ Invalid data c mode given values)) ∧
    (¬Differs given c.system (namesInFile files path asked) → ¬Invalid data c mode given values →
      ∃ (tuned : Tuned) (p : String → Float), load files c mode path asked = .ok tuned ∧ tuned.system = c.system ∧
        tuned.classification = c.classification ∧ tuned.mode = mode ∧ data.singularity = some tuned.singularity ∧
        tuned.parameter = data.parameter.getD tuned.singularity ∧ tuned.values = values ∧
        (∀ name x, (name, x) ∈ given ↔ name ∈ c.system.constructorNames ∧ x = p name) ∧
        tuned.probabilities = c.system.types.map fun t => t.constructors.map fun k => p k.name) := by
  have resolved := Specification.resolved declared
  have tracks := tracks_read read
  have distinct : (given.map (·.1)).Nodup := Numbers.distinct_ofTexts.mp (named ▸ tracks.distinct)
  have loads : load files c mode path asked = data.tune c mode := by
    rw [load, read]
    rfl
  rw [loads]
  by_cases differs : Differs given c.system (namesInFile files path asked)
  case pos =>
    have ⟨missing, extra, duplicated, fails, sets⟩ := tune_of_differs mode named tracks differs
    refine ⟨iff_of_true ⟨_, _, _, fails⟩ differs, fun _ _ _ h => ?_, fun h => absurd differs h, fun h => absurd differs h⟩
    cases fails.symm.trans h
    exact sets
  case neg =>
    have matched := matching_of_not_differs named tracks differs
    have agrees : ∀ name, name ∈ given.map (·.1) ↔ name ∈ c.system.constructorNames :=
      not_exists_not.mp (not_or.mp differs).1
    have mismatch : ¬∃ missing extra duplicated,
        data.tune c mode = .error (.tuning (.mismatch missing extra duplicated)) := by
      rintro ⟨_, _, _, h⟩
      have ⟨_, hf⟩ := blames_tune matched valued _ h
      cases hf
    refine ⟨iff_of_false mismatch differs, fun _ _ _ h => absurd ⟨_, _, _, h⟩ mismatch,
      fun _ => tune_error_iff resolved.names distinct agrees matched valued, fun _ valid => ?_⟩
    have ⟨tuned, ht, system, classification, hm, singularity, parameter, texts, vectors⟩ :=
      tune_of_sound resolved.names distinct agrees matched valued (sound_of_not_invalid valid)
    exact ⟨tuned, numberOf given, ht, system, classification, hm, singularity, parameter, texts,
      fun _ _ => mem_given distinct agrees, vectors⟩

-- Rows for words, one of which stands twice.
def wordRows : String :=
  "constructor,probability,singularity\nMore,0.25,0.25\nStop,0.75,0.25\nSeq(@).Nil,0.5,0.25\nSeq(@).Cons,0.5,0.25\n" ++
    "Stop,0.75,0.25\n"

theorem words_load_outcome : Specification.ofDeclarations Specification.wordEntries [] = .ok .words ∧
    ∃ data, TuningData.read (fun _ => .ok wordRows) "words" (some "csv") = .ok data ∧
      data.probabilities = .ofTexts [("More", 0.25), ("Stop", 0.75), ("Seq(@).Nil", 0.5), ("Seq(@).Cons", 0.5)] ∧
      data.values = .ofTexts [] ∧
      ∃ missing extra duplicated, load (fun _ => .ok wordRows) ⟨.words, .rational, []⟩ .regular "words" (some "csv") =
        .error (.tuning (.mismatch missing extra duplicated)) ∧ "Stop" ∈ duplicated := by
  have contents : (TuningData.read (fun _ => .ok wordRows) "words" (some "csv")).toOption.map
      (fun data => (data.probabilities.texts?, data.values.texts?)) =
        some (some [("More", 0.25), ("Stop", 0.75), ("Seq(@).Nil", 0.5), ("Seq(@).Cons", 0.5)], some []) := by
    decide +kernel
  have twice : 2 ≤ (namesInFile (fun _ => .ok wordRows) "words" (some "csv")).count "Stop" := by decide +kernel
  have ⟨data, here, texts⟩ := Option.map_eq_some_iff.mp contents
  have found : TuningData.read (fun _ => .ok wordRows) "words" (some "csv") = .ok data := by
    cases h : TuningData.read (fun _ => .ok wordRows) "words" (some "csv") <;> rw [h] at here
    case error => cases here
    case ok    => exact congrArg _ (Option.some.inj here)
  obtain ⟨probabilities, values⟩ := Prod.ext_iff.mp texts
  have named := Numbers.texts?_eq_some.mp probabilities
  have valued := Numbers.texts?_eq_some.mp values
  have ⟨mismatch, sets, _⟩ := @load_outcome (fun _ => .ok wordRows) ⟨.words, .rational, []⟩ "words" (some "csv")
    data _ _ Specification.wordEntries [] rfl found named valued .regular
  have ⟨missing, extra, duplicated, h⟩ := mismatch.mpr (.inr ⟨"Stop", twice⟩)
  exact ⟨rfl, data, found, named, valued, missing, extra, duplicated, h, ((sets _ _ _ h).2.2.2 "Stop").mpr twice⟩

end Tuned

end BoltzmannSampling
