import Mathlib
import BoltzmannSampling.Proofs.Sampler.Ending
import BoltzmannSampling.Proofs.Sampler.Waiting
import BoltzmannSampling.Proofs.Sampler.Window
import BoltzmannSampling.Tuning.Loading

/-!
Requests stop. Where every type moves on, each attempt of a request can be brought to its end from wherever it stands
by a bounded number of numbers, so that the share of the number sequences under which a request goes on falls
geometrically in their length. It is not so under every sequence, nor where a run never ends.
-/

namespace BoltzmannSampling

namespace Regime

variable {R : Regime} {upper longest widest wait k left : Nat} {u : Float} {T : String} {t : TypeDef} {x y : Stage}
variable {us vs : List Float} {P : Progress Unit}

def Stops (R : Regime) (T : String) (x : Stage) (us : List Float) : Prop :=
  x.Stops (.ofTuned R.tuned) R.order R.limit T us

-- A stage of a request whose attempt is as every step keeps it.
def Sound (R : Regime) (upper longest widest : Nat) (x : Stage) : Prop :=
  ∀ a, x.attempt = some a → R.Keeps upper longest widest (.running a)

theorem Keeps.after (h : R.Keeps upper longest widest P) (left : Nat) :
    ∃ y, Stage.after left P = some y ∧ R.Sound upper longest widest y ∧ y.left = left := by
  cases P
  case running a => exact ⟨⟨left, some a⟩, rfl, fun _ ha => Option.some.inj ha ▸ h, rfl⟩
  case done | exceeded => exact ⟨⟨left, none⟩, rfl, fun _ ha => (nomatch ha), rfl⟩
  case stuck     => exact h.elim

-- What numbers bring an attempt to its end leaves the others to be stopped.
theorem Can.stops (h : R.Can Over k P) (T : String) (left : Nat) :
    ∃ us y, us.length ≤ k ∧ (∀ u ∈ us, u ∈ R.pool) ∧ Stage.after left P = some y ∧
      ∀ vs, R.Stops T ⟨left, none⟩ vs → R.Stops T y (us ++ vs) := by
  induction h
  case now P h =>
    cases P
    case done | exceeded => exact ⟨[], ⟨left, none⟩, Nat.zero_le _, by simp, rfl, fun _ h => h⟩
    case running | stuck => exact h.elim
  case later a u number _ hi =>
    have ⟨us, y, hl, hp, hs, stops⟩ := hi
    cases hd : Attempt.draws (.ofTuned R.tuned) R.order a
    case true =>
      exact ⟨u :: us, ⟨left, some a⟩, Nat.succ_le_succ hl, List.forall_mem_cons.mpr ⟨number, hp⟩, rfl,
        fun vs h => .drawn hd hs (stops vs h)⟩
    case false =>
      exact ⟨us, ⟨left, some a⟩, Nat.le_succ_of_le hl, hp, rfl, fun vs h => .free hd hs (stops vs h)⟩

-- Where a stage can do a step, it can do so with every number.
theorem Sound.step (h : R.Sound upper longest widest x) (bounded : R.Bounded upper longest widest wait)
    (ht : t ∈ R.tuned.system.userTypes) (hu : u ∈ R.pool) (busy : x ≠ ⟨0, none⟩) :
    ∃ y, x.step (.ofTuned R.tuned) R.order R.limit t.name u = some y ∧ R.Sound upper longest widest y ∧
      y.left ≤ x.left := by
  obtain ⟨left, _ | a⟩ := x
  case none =>
    cases left
    case zero      => exact absurd rfl busy
    case succ left =>
      have ⟨y, hs, sound, hl⟩ := (bounded.begin hu ht).after left
      exact ⟨y, hs, sound, hl ▸ Nat.le_succ left⟩
  case some =>
    have ⟨_, _, steady⟩ := h a rfl
    have ⟨y, hs, sound, hl⟩ := (bounded.step steady hu).after left
    exact ⟨y, hs, sound, hl.le⟩

theorem Stops.exists_next (h : R.Stops t.name x us) (bounded : R.Bounded upper longest widest wait)
    (ht : t ∈ R.tuned.system.userTypes) (sound : R.Sound upper longest widest x) (hu : u ∈ R.pool) :
    ∃ y, R.Sound upper longest widest y ∧ y.left ≤ x.left ∧ ∀ vs, R.Stops t.name y vs → R.Stops t.name x (u :: vs) := by
  induction h
  case finished => exact ⟨⟨0, none⟩, sound, le_rfl, fun _ _ => .finished⟩
  case drawn x y v us draws next _ hi =>
    have busy : x ≠ ⟨0, none⟩ := fun he => nomatch he ▸ next
    have ⟨z, hs, sound, hl⟩ := sound.step bounded ht hu busy
    exact ⟨z, sound, hl, fun vs stops => .drawn draws hs stops⟩
  case free x y v us draws next _ hi =>
    have busy : x ≠ ⟨0, none⟩ := fun he => nomatch he ▸ next
    have ⟨z, hs, sound, hl⟩ := sound.step bounded ht hu busy
    have same : z = y := Option.some.inj (hs.symm.trans ((Stage.step_free draws u v).trans next))
    have ⟨w, sound, hw, stops⟩ := hi (same ▸ sound)
    exact ⟨w, sound, hw.trans (same ▸ hl), fun vs h => .free draws next (stops vs h)⟩

-- How many numbers it takes at most to stop so many attempts.
def horizon (attempts upper longest widest wait : Nat) : Nat :=
  attempts * ((upper + 1) * span longest widest wait + 1)

-- The attempts that are left are brought to their end one after the other.
theorem Bounded.exists_stops (bounded : R.Bounded upper longest widest wait) (ht : t ∈ R.tuned.system.userTypes)
    (left : Nat) : ∃ us, us.length ≤ horizon left upper longest widest wait ∧ (∀ u ∈ us, u ∈ R.pool) ∧
      R.Stops t.name ⟨left, none⟩ us := by
  induction left
  case zero         => exact ⟨[], Nat.zero_le _, by simp, .finished⟩
  case succ left hi =>
    have ⟨u, hu⟩ := bounded.numbers
    have ⟨us, y, hl, hp, hs, stops⟩ := ((bounded.begin hu ht).ends bounded).stops t.name left
    have ⟨vs, hlv, hpv, later⟩ := hi
    have later := stops vs later
    have hp : ∀ u ∈ us ++ vs, u ∈ R.pool := List.forall_mem_append.mpr ⟨hp, hpv⟩
    have hl : (us ++ vs).length + 1 ≤ horizon (left + 1) upper longest widest wait := by
      rw [horizon, Nat.succ_mul, List.length_append, ← Nat.add_assoc]
      exact Nat.succ_le_succ (Nat.add_comm .. ▸ Nat.add_le_add hlv hl)
    cases hd : Attempt.entersDrawing (.ofTuned R.tuned) t.name
    case true  => exact ⟨u :: (us ++ vs), hl, List.forall_mem_cons.mpr ⟨hu, hp⟩, .drawn hd hs later⟩
    case false => exact ⟨us ++ vs, Nat.le_of_succ_le hl, hp, .free hd hs later⟩

theorem Sound.exists_stops (sound : R.Sound upper longest widest x) (bounded : R.Bounded upper longest widest wait)
    (ht : t ∈ R.tuned.system.userTypes) :
    ∃ us, us.length ≤ horizon (x.left + 1) upper longest widest wait ∧ (∀ u ∈ us, u ∈ R.pool) ∧
      R.Stops t.name x us := by
  have ⟨vs, hlv, hpv, later⟩ := bounded.exists_stops ht x.left
  rw [horizon, Nat.succ_mul, ← horizon]
  obtain ⟨left, _ | a⟩ := x
  case none => exact ⟨vs, Nat.le_add_right_of_le hlv, hpv, later⟩
  case some =>
    have ⟨us, y, hl, hp, hs, stops⟩ := ((sound a rfl).ends bounded).stops t.name left
    have he : y = ⟨left, some a⟩ := (Option.some.inj hs).symm
    refine ⟨us ++ vs, ?_, List.forall_mem_append.mpr ⟨hp, hpv⟩, he ▸ stops vs later⟩
    rw [List.length_append]
    omega

-- What is waited for at a stage: numbers that stop the request.
theorem Bounded.recurrent (bounded : R.Bounded upper longest widest wait) (ht : t ∈ R.tuned.system.userTypes)
    (m : Nat) :
    Recurrent R.pool (horizon (m + 1) upper longest widest wait)
      { Q | ∃ x, R.Sound upper longest widest x ∧ x.left ≤ m ∧ Q = { us | R.Stops t.name x us } } where
  extend := by
    rintro _ ⟨x, _, _, rfl⟩ us stops vs
    exact stops.append vs
  reach := by
    rintro _ ⟨x, sound, hl, rfl⟩
    have ⟨us, short, hp, stops⟩ := sound.exists_stops bounded ht
    have ⟨u, hu⟩ := bounded.numbers
    have short : us.length ≤ horizon (m + 1) upper longest widest wait :=
      short.trans (Nat.mul_le_mul_right _ (Nat.succ_le_succ hl))
    refine ⟨us ++ List.replicate (horizon (m + 1) upper longest widest wait - us.length) u, ⟨?_, ?_⟩, stops.append _⟩
    · rw [List.length_append, List.length_replicate, Nat.add_sub_of_le short]
    · exact List.forall_mem_append.mpr ⟨hp, fun v hv => List.eq_of_mem_replicate hv ▸ hu⟩
  next := by
    rintro _ ⟨x, sound, hl, rfl⟩ u hu
    have ⟨us, _, _, stops⟩ := sound.exists_stops bounded ht
    have ⟨y, sound, hy, later⟩ := stops.exists_next bounded ht sound hu
    exact ⟨_, ⟨y, sound, hy.trans hl, rfl⟩, later⟩

end Regime

namespace Specification

-- A nullable element would give a sequence of any length, all without atoms.
theorem element_not_nullable {s : Specification} (strict : ∃ c, s.check false = .ok c) {m : Modifier} {T : String}
    (haux : .auxiliary m (.ref T) ∈ s.types) : T ∉ s.nullable := by
  intro hn
  have known := name_mem_names haux
  have ⟨productive, acyclic⟩ := check_strict.mp strict _ known
  refine acyclic <| mem_zeroSizeCyclic.mpr ⟨⟨known, productive⟩, .single ⟨?_, productive, productive⟩⟩
  refine zeroSizeGraph_edge.mpr ⟨_, .cons m (.ref T), ⟨haux, rfl⟩, ?_, rfl, [T], [], rfl, by simpa using hn⟩
  simp [Constructor.auxiliary_constructors]

end Specification

namespace Regime

variable {R : Regime} {upper : Nat}

theorem exists_bounded {entries : List (Except Json Declaration)} {annotations : List (String × Json)}
    (h : Specification.ofDeclarations entries annotations = .ok R.tuned.system)
    (strict : ∃ c, R.tuned.system.check false = .ok c) (limit : R.limit = some upper) (numbers : R.pool.Nonempty)
    (below : ∀ u ∈ R.pool, ¬(1 : Float) ≤ u) (moves : ∀ T ∈ R.tuned.system.names, R.tuned.Moves R.pool T) :
    ∃ longest widest wait, R.Bounded upper longest widest wait := by
  have resolved := Specification.resolved h
  have ⟨nonempty, finite⟩ := (Specification.check_strict_iff_wellFounded h).mp strict
  have elements : ∀ m T, .auxiliary m (.ref T) ∈ R.tuned.system.types → T ∉ R.nullable := fun _ _ haux =>
    Specification.element_not_nullable strict haux
  -- The derivations within the limit are finitely many.
  have within : (⋃ T ∈ { T | T ∈ R.tuned.system.names }, ⋃ n ∈ Set.Iic upper,
      { d ∈ R.tuned.system.derivations T | d.size = n }).Finite :=
    (List.finite_toSet R.tuned.system.names).biUnion fun T _ => (Set.finite_Iic upper).biUnion fun n _ => finite T n
  have ⟨longest, hl⟩ := (within.image Derivation.steps).bddAbove
  choose! bound answers using fun T hT => exists_answers resolved numbers elements (moves T hT)
  refine ⟨longest, (R.tuned.system.productions.map fun p => 2 * p.2.refs.length).sum,
    (R.tuned.system.names.map bound).sum, resolved, limit, ?_, elements, numbers, below, ?_, ?_, ?_⟩
  · intro t ht none
    have ⟨⟨u, c, ps⟩, hd⟩ := nonempty t.name (Specification.name_mem_names ht)
    have ⟨⟨hu, hn⟩, hc, _⟩ := Specification.node_mem_derivations.mp hd
    rw [resolved.type_unique hu ht hn, none] at hc
    cases hc
  · intro T ⟨t, c, ps⟩ hd hn
    have ⟨⟨ht, hT⟩, _⟩ := Specification.node_mem_derivations.mp hd
    have known : T ∈ R.tuned.system.names := hT ▸ Specification.name_mem_names ht
    exact hl <| Set.mem_image_of_mem _ <| Set.mem_biUnion known <| Set.mem_biUnion hn ⟨hd, rfl⟩
  · intro t ht c hc
    exact List.le_sum_of_mem <| List.mem_map_of_mem (f := fun p : TypeDef × Constructor Symbol => 2 * p.2.refs.length)
      (Specification.mem_productions.mpr ⟨ht, hc⟩)
  · intro T hT
    exact (answers T hT).mono (List.le_sum_of_mem (List.mem_map_of_mem hT))

end Regime

namespace Specification

-- Trees of atoms, each with a sequence of further trees.
def plantEntries : List (Except Json Declaration) :=
  let tree : Constructor Arg := ⟨"Tree", [.plain (.atom .unit), .many .sequence (.ref "P")], 1, isWeight_one⟩
  [.ok ⟨"P", [.ok tree], .text "plain", none, 0⟩]

def plants : Specification where
  types :=
    let tree : Constructor Symbol := ⟨"Tree", [.atom .unit, .ref "Seq(P)"], 1, isWeight_one⟩
    [⟨"P", [tree], .declared none 0⟩, .auxiliary .sequence (.ref "P")]
  initial := "P"
  annotations := []

end Specification

def TuningData.plants (stop more : Float) : TuningData :=
  ⟨some 0.25, none, [(.text "Tree", 1), (.text "Seq(P).Nil", stop), (.text "Seq(P).Cons", more)], [], [], none⟩

def Tuned.plants (stop more : Float) : Tuned where
  system         := .plants
  classification := .algebraic
  mode           := .regular
  singularity    := 0.25
  parameter      := 0.25
  values         := []
  probabilities  := [[1], [stop, more]]
  aligned        := rfl

theorem TuningData.vectorOf_eq {given : List (String × Float)} {t : TypeDef} (ps : List Float)
    (found : t.constructors.map (fun c => (Assoc.get? given c.name).getD 0) = ps)
    (probable : ∀ p ∈ ps, (p.isFinite && 0 ≤ p) = true) (total : ¬(Scalar.pairwiseSum ps - 1).abs > tolerance) :
    vectorOf given t = .ok (t.name, ps) := by
  subst found
  have checked :
      (t.constructors.map fun c => (c.name, (Assoc.get? given c.name).getD 0)).forM checkProbability = .ok () :=
    Checks.forM_eq_ok.mpr <| List.forall_mem_map.mpr fun c hc => if_pos (probable _ (List.mem_map_of_mem hc))
  simp only [vectorOf, checked, List.map_map, Function.comp_def, if_neg total]
  rfl

theorem Tuned.plants_loaded {stop more : Float} (h : ∀ p ∈ [stop, more], (p.isFinite && 0 ≤ p) = true)
    (total : ¬(Scalar.pairwiseSum [stop, more] - 1).abs > TuningData.tolerance) (f : List Finding) :
    (TuningData.plants stop more).tune ⟨.plants, .algebraic, f⟩ .regular = .ok (.plants stop more) := by
  let given : List (String × Float) := [("Tree", 1), ("Seq(P).Nil", stop), ("Seq(P).Cons", more)]
  have names : TuningData.mismatch? Specification.plants.constructorNames (given.map (·.1)) [] = none := by
    change TuningData.mismatch? _ ["Tree", "Seq(P).Nil", "Seq(P).Cons"] [] = none
    decide +kernel
  have matching : (TuningData.plants stop more).matching .plants = .ok given := by
    have texts : (TuningData.plants stop more).probabilities.texts? = some given := rfl
    simp only [TuningData.matching, texts]
    exact names ▸ rfl
  have vectors : Specification.plants.types.mapM (TuningData.vectorOf given) =
      .ok [("P", [1]), ("Seq(P)", [stop, more])] := by
    simp only [Specification.plants, List.mapM_cons, List.mapM_nil]
    rw [TuningData.vectorOf_eq [1] rfl (by decide +kernel) (by decide +kernel),
      TuningData.vectorOf_eq [stop, more] rfl h total]
    rfl
  have positive : TuningData.isPositive 0.25 = true := by decide +kernel
  have singularity : (TuningData.plants stop more).positiveSingularity = .ok 0.25 := by
    simp [TuningData.positiveSingularity, TuningData.plants, positive]
  have parameter : (TuningData.plants stop more).positiveParameter 0.25 = .ok 0.25 := by
    simp [TuningData.positiveParameter, TuningData.plants, positive]
  simp only [TuningData.tune, matching, singularity, parameter, vectors, bind, Except.bind]
  rfl

namespace Attempt

variable {σ : Type} {next : σ → Float × σ} {s : Sampler} {order : DrawOrder} {limit : Option Nat} {size : Nat}

-- A run of a type weighs nothing, so that nothing but its end stops it.
theorem steps_goesOn {f : Frame} {r : Run} {T : String} (hr : f.run = some r) (he : r.element = .ref T)
    (within : isOver limit size = false) (goesOn : ∀ source, (next source).1 < r.p) (fuel : Nat) (source : σ)
    (nodes : Nat) (rest : List Frame) :
    ∃ b, steps (.ofNumbers next) s order limit fuel ⟨source, size, nodes, f :: rest⟩ = .running b := by
  induction fuel generalizing f r source
  case zero         => exact ⟨_, rfl⟩
  case succ fuel hi =>
    have ha : f.action order = .draw r := by simp [Frame.action, hr]
    have more : drawRun (.ofNumbers next) limit ⟨source, size, nodes, f :: rest⟩ f rest r = .running
        ⟨(next source).2, size, nodes, { f with run := some { r with count := r.count + 1 } } :: rest⟩ := by
      simp [drawRun, Decider.ofNumbers, goesOn, he, Element.atomSize, within]
    simp only [steps, step, ha, more]
    exact hi (r := { r with count := r.count + 1 }) rfl he goesOn _

end Attempt

namespace Sampler

-- Numbers with which a request comes to its end, whatever source they are the first of.
def Concludes (s : Sampler) (r : DrawRequest) (T : String) (attempts : Nat) (us : List Float) : Prop :=
  ∀ {σ : Type} (next : σ → Float × σ) (source source' : σ), Decider.Draws next us source source' →
    ∃ enough, ∀ fuel, enough ≤ fuel →
      Concluded r attempts (attemptsWithin fuel (.ofNumbers next) s r T attempts 0 source).1

theorem concludes_of_stops {s : Sampler} {r : DrawRequest} {T : String} {m : Nat} {us : List Float}
    (h : Stage.Stops s s.order r.limit T ⟨m, none⟩ us) : s.Concludes r T m us := by
  intro σ next source source' draws
  have ⟨enough, concluded⟩ := h.concluded (r := r) draws
  refine ⟨enough, fun fuel hf => ?_⟩
  simpa [Stage.outstanding, Stage.resume] using concluded 0 fuel enough hf le_rfl

theorem concludes_almost_always {entries : List (Except Json Declaration)} {annotations : List (String × Json)}
    {tuned : Tuned} {r : DrawRequest} {T : String} {m upper : Nat} {pool : Finset Float}
    (h : Specification.ofDeclarations entries annotations = .ok tuned.system)
    (strict : ∃ c, tuned.system.check false = .ok c) (accepted : (ofTuned tuned).check r = .ok T)
    (bound : attemptsOf r = .ok m) (limit : r.limit = some upper) (numbers : pool.Nonempty)
    (below : ∀ u ∈ pool, ¬(1 : Float) ≤ u) (moves : ∀ T ∈ tuned.system.names, tuned.Moves pool T) :
    (∃ K, ∀ n, { us ∈ sequences pool (n * K) | ¬(ofTuned tuned).Concludes r T m us }.ncard ≤ (pool.card ^ K - 1) ^ n) ∧
      ∀ g, ((ofTuned tuned).sample r g).1 =
        (attemptsWithin patience (.ofNumbers Stream.next) (ofTuned tuned) r T m 0 (.start g)).1 := by
  constructor
  · have ⟨t, ht, hn, ha, _⟩ := check_ok accepted
    obtain rfl := hn
    have user : t ∈ tuned.system.userTypes := List.mem_filter.mpr ⟨ht, by simp [ha]⟩
    let R : Regime := ⟨tuned, pool, (ofTuned tuned).order, r.limit⟩
    have ⟨_, _, _, bounded⟩ := R.exists_bounded h strict limit numbers below moves
    refine ⟨_, fun n => le_trans ?_ ((bounded.recurrent user m).ncard_le ⟨⟨m, none⟩, nofun, le_rfl, rfl⟩ n)⟩
    refine Set.ncard_le_ncard (fun us ⟨hs, hc⟩ => ⟨hs, fun stops => hc (concludes_of_stops stops)⟩) ?_
    exact (finite_sequences pool _).sdiff
  · intro g
    simp only [sample, accepted, bound, attempts_eq]

theorem words_concludes : Specification.ofDeclarations Specification.wordEntries [] = .ok Tuned.words.system ∧
    (ofTuned .words).check ⟨some "Word", .int 1, .int 9, some 3⟩ = .ok "Word" ∧
    (∀ T ∈ Tuned.words.system.names, Tuned.words.Moves {0.1, 0.9} T) ∧
    ∃ K, ∀ n, { us ∈ sequences {0.1, 0.9} (n * K) |
      ¬(ofTuned .words).Concludes ⟨some "Word", .int 1, .int 9, some 3⟩ "Word" 3 us }.ncard ≤ (2 ^ K - 1) ^ n := by
  have declared : Specification.ofDeclarations Specification.wordEntries [] = .ok Tuned.words.system := rfl
  have moves : ∀ T ∈ Tuned.words.system.names, Tuned.words.Moves {0.1, 0.9} T :=
    Tuned.moves_of_picked (Specification.resolved declared) (by decide +kernel) (by decide +kernel) fun m T haux => by
      simp [Tuned.words, Specification.words, TypeDef.auxiliary] at haux
  have card : ({0.1, 0.9} : Finset Float).card = 2 := by decide +kernel
  refine ⟨rfl, rfl, moves, card ▸ ?_⟩
  exact (@concludes_almost_always Specification.wordEntries [] .words ⟨some "Word", .int 1, .int 9, some 3⟩ "Word" 3 9
    {0.1, 0.9} rfl ⟨_, rfl⟩ rfl rfl rfl ⟨0.1, by decide +kernel⟩ (by decide +kernel) moves).1

section Plants

variable {σ : Type} {next : σ → Float × σ} {more : Float} (stop : Float)

theorem plants_running (goesOn : ∀ source, (next source).1 < more) (fuel : Nat) (source : σ) :
    ∃ b, Attempt.draw (.ofNumbers next) (.ofTuned (.plants stop more)) .ahead (some 5) fuel source "P" =
      .running b := by
  have entered : Attempt.enter (.ofNumbers next) (.ofTuned (.plants stop more)) (some 5) ⟨source, 0, 0, []⟩ "P" =
      .running ⟨source, 1, 1, [Attempt.frame 0 "P" ⟨"Tree", 1, [.run more (.ref "P")]⟩]⟩ := rfl
  simp only [Attempt.draw, entered]
  cases fuel
  case zero      => exact ⟨_, rfl⟩
  case succ fuel => exact Attempt.steps_goesOn (r := ⟨0, more, .ref "P"⟩) rfl rfl rfl goesOn fuel source _ _

theorem plants_not_concluded (goesOn : ∀ source, (next source).1 < more) (fuel : Nat) (source : σ) :
    let r : DrawRequest := ⟨some "P", .int 0, .int 5, some 3⟩
    ¬Concluded r 3 (attemptsWithin fuel (.ofNumbers next) (.ofTuned (.plants stop more)) r "P" 3 0 source).1 := by
  intro r
  have ⟨b, running⟩ := plants_running stop goesOn fuel source
  have running : Attempt.draw (.ofNumbers next) (.ofTuned (.plants stop more)) (ofTuned (.plants stop more)).order
      r.limit fuel source "P" = .running b := running
  simp [attemptsWithin, running, settle, Concluded]

end Plants

-- Trees go on under one number again and again, though they are tuned well; and under all numbers below one, if they
-- are tuned to sequences that never end.
theorem plants_endless :
    let r : DrawRequest := ⟨some "P", .int 0, .int 5, some 3⟩
    Specification.ofDeclarations Specification.plantEntries [] = .ok .plants ∧
    (∃ c, Specification.plants.check false = .ok c ∧
      (TuningData.plants 0.5 0.5).tune c .regular = .ok (.plants 0.5 0.5) ∧
      (TuningData.plants 0 1).tune c .regular = .ok (.plants 0 1)) ∧
    (ofTuned (.plants 0.5 0.5)).check r = .ok "P" ∧ (ofTuned (.plants 0 1)).check r = .ok "P" ∧
    (∀ fuel, ¬Concluded r 3
      (attemptsWithin fuel (.ofNumbers fun _ : Unit => (0.25, ())) (.ofTuned (.plants 0.5 0.5)) r "P" 3 0 ()).1) ∧
    ∀ {σ : Type} (next : σ → Float × σ), (∀ source, (next source).1 < 1) → ∀ source fuel, ¬Concluded r 3
      (attemptsWithin fuel (.ofNumbers next) (.ofTuned (.plants 0 1)) r "P" 3 0 source).1 := by
  intro r
  have checked : ∃ f, Specification.plants.check false = .ok ⟨.plants, .algebraic, f⟩ := ⟨_, rfl⟩
  have ⟨f, checked⟩ := checked
  refine ⟨rfl, ⟨_, checked, ?_, ?_⟩, rfl, rfl, ?_, ?_⟩
  · exact Tuned.plants_loaded (by decide +kernel) (by decide +kernel) f
  · exact Tuned.plants_loaded (by decide +kernel) (by decide +kernel) f
  · exact fun fuel => plants_not_concluded _ (fun _ => by decide +kernel) fuel ()
  · exact fun next below source fuel => plants_not_concluded _ below fuel source

end Sampler

end BoltzmannSampling
