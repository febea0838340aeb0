import Mathlib
import BoltzmannSampling.Proofs.Sampler.Buffering
import BoltzmannSampling.Proofs.Sampler.DeadTypes
import BoltzmannSampling.Proofs.Structure.Counting

/-!
The frequencies of constructors in what a sampler produces. However a structure is drawn, it is that of a derivation, so
that all of its nodes are of declared types, and the table of frequencies has the rows of the system and no others.
-/

namespace BoltzmannSampling

namespace Sampler

-- A structure comes from a sampler: alone, however many steps that takes, or among several that are drawn at once with
-- any number of workers.
inductive Produces (s : Sampler) (found : Structure) : Prop
  | alone {r g g'} (gives : s.Gives r g (.ok found) g')
  | together {r count entropy workers drawn} (returns : s.Returns r count entropy workers (.ok drawn))
      (member : found ∈ drawn)

variable {s : Sampler} {tuned : Tuned} {r : DrawRequest} {g g' : Generator} {found : Structure}
  {structures : List Structure}

theorem produces_of_sample (drawn : s.sample r g = (.ok found, g')) : s.Produces found :=
  .alone ⟨patience, sample_eq s r g ▸ drawn⟩

theorem produces_of_sampleMany {count : Int} {entropy : Except Failure Entropy} {drawn : List Structure}
    (many : (s.sampleMany r count entropy).1 = .ok drawn) : ∀ found ∈ drawn, s.Produces found := by
  intro found member
  have ⟨_, _, single⟩ := sampled_of_mem many member
  exact produces_of_sample single

theorem exists_draw_of_gives (gives : s.Gives r g (.ok found) g') : ∃ T source fuel a, s.check r = .ok T ∧
    Attempt.draw (.ofNumbers Stream.next) s s.order r.limit fuel source T = .done found a := by
  obtain ⟨fuel, within⟩ := gives
  rw [sampleWithin] at within
  cases accepted : s.check r
  case error => simp [accepted] at within
  case ok T  =>
    cases bounded : boundOf r
    case error    => simp [accepted, bounded] at within
    case ok bound =>
      simp only [accepted, bounded, Prod.mk.injEq] at within
      obtain ⟨_, source, a, _, _, comes, _⟩ := exists_of_attemptsWithin_ok (Prod.ext within.1 rfl)
      obtain ⟨fuel, done⟩ := comes.run
      exact ⟨T, source, fuel, a, rfl, done⟩

theorem exists_draw_of_returns {count : Int} {entropy : Except Failure Entropy} {workers : Option Int}
    {drawn : List Structure} (returns : s.Returns r count entropy workers (.ok drawn)) (member : found ∈ drawn) :
    ∃ T source fuel a, s.check r = .ok T ∧
      Attempt.draw (.ofNumbers Stream.next) s s.order r.limit fuel source T = .done found a := by
  cases granted : s.grant r count entropy
  case error => cases (returns_refused granted).mp returns
  case ok e =>
    have ⟨_, _, yields⟩ := ((returns_ok granted).mp returns).exists_left member
    exact exists_draw_of_yields yields

theorem Produces.exists_derivation (h : (ofTuned tuned).Produces found) (resolved : tuned.system.Resolved) :
    ∃ t ∈ tuned.system.userTypes, ∃ d ∈ tuned.system.derivations t.name, found.unmarked = d.toStructure := by
  have ⟨r, T, source, fuel, a, accepted, done⟩ : ∃ r T source fuel a, (ofTuned tuned).check r = .ok T ∧
      Attempt.draw (.ofNumbers Stream.next) (ofTuned tuned) (ofTuned tuned).order r.limit fuel source T = .done found a := by
    cases h
    case alone gives             => exact ⟨_, exists_draw_of_gives gives⟩
    case together returns member => exact ⟨_, exists_draw_of_returns returns member⟩
  have ⟨t, user, name, _⟩ := userType_of_check accepted
  exact ⟨t, user, exists_derivation_of_draw resolved user (name ▸ done)⟩

-- No node is of an auxiliary type, or of one that the system does not have.
theorem Produces.expected (h : (ofTuned tuned).Produces found) (resolved : tuned.system.Resolved) {x : Structure}
    (hx : x ∈ found.walk) : x.choice ∈ Structure.expected tuned.system := by
  have ⟨_, user, _, hd, structure'⟩ := h.exists_derivation resolved
  exact Structure.mem_expected.mpr (choice_of_mem_walk resolved user hd structure' hx)

-- The frequencies of what a sampler produces, on whatever requests. Their order does not matter.
theorem produced_frequencies {entries : List (Except Json Declaration)} {annotations : List (String × Json)}
    (declared : Specification.ofDeclarations entries annotations = .ok tuned.system)
    (produced : ∀ found ∈ structures, (ofTuned tuned).Produces found) :
    Structure.Tabulates tuned.system structures ((Structure.tunedFrequencies structures tuned).map (·.1)) ∧
    ∀ structures', structures'.Perm structures →
      Structure.tunedFrequencies structures' tuned = Structure.tunedFrequencies structures tuned := by
  have resolved := Specification.resolved declared
  have covered : ∀ c ∈ Structure.chosen structures, c ∈ Structure.expected tuned.system := by
    rw [Structure.chosen, List.forall_mem_map]
    intro x hx
    obtain ⟨_, member, hx⟩ := List.mem_flatMap.mp hx
    exact (produced _ member).expected resolved hx
  have table := Structure.tunedFrequencies_eq resolved covered
  constructor
  · rw [table, List.map_map]
    exact Structure.tabulates resolved covered
  · intro structures' perm
    rw [table, Structure.tunedFrequencies_eq resolved fun c hc => covered c ?_, Structure.row_perm perm]
    exact ((perm.flatMap_right Structure.walk).map Structure.choice).mem_iff.mp hc

end Sampler

def Tuned.pages : Tuned where
  system         := .pages
  classification := .rational
  mode           := .cumulative
  singularity    := 1
  parameter      := 0.5
  values         := []
  probabilities  := [[1], [1], [1], [0.5, 0.5]]
  aligned        := rfl

namespace Sampler

-- A page of one letter, drawn alone.
theorem page_produced : (ofTuned .pages).Produces (.node 0 "Page" "Text" 0 [.node 1 "Mark" "Letter" 1 []]) := by
  have run : attemptsWithin 20 (.ofStream (Generator.double ⟨0, 1⟩)) (ofTuned .pages)
      ⟨some "Text", .int 1, .int 9, some 1⟩ "Text" 1 0 0 = (.ok (.node 0 "Page" "Text" 0 [.node 1 "Mark" "Letter" 1 []]), 2) :=
    rfl
  have gives := (unbuffered_eq_iff (by simp)).mpr ⟨"Text", 2, rfl, by simp, run, rfl⟩
  exact .alone ⟨20, (sampleWithin_eq ..).trans gives⟩

-- Two letters, drawn at once.
theorem marks_produced : ∀ found ∈ List.replicate 2 (.node 0 "Mark" "Letter" 1 []), (ofTuned .pages).Produces found := by
  have many : ((ofTuned .pages).sampleMany ⟨some "Letter", .int 1, .int 1, some 1⟩ 2 (.ok ⟨[7], [], 0⟩)).1 =
    .ok (List.replicate 2 (.node 0 "Mark" "Letter" 1 [])) := rfl
  exact produces_of_sampleMany many

-- Nothing of the type that no text uses is among these.
theorem pages_frequencies :
    let mark : Structure := .node 0 "Mark" "Letter" 1 []
    let page : Structure := .node 0 "Page" "Text" 0 [.node 1 "Mark" "Letter" 1 []]
    let rows := (Structure.tunedFrequencies [page, mark, mark] .pages).map (·.1)
    Specification.ofDeclarations Specification.pageEntries [] = .ok Tuned.pages.system ∧
    (∀ found ∈ [page, mark, mark], (ofTuned .pages).Produces found) ∧
    rows.map (fun f => (f.typeName, f.constructor)) = [("Text", "Page"), ("Letter", "Mark"), ("Lost", "Gone")] ∧
    (rows.map (·.count)).sum = 4 ∧ ((rows.filter (·.typeName == "Letter")).map fun f => (f.share : ℚ)).sum = 1 ∧
    (∀ f ∈ rows, f.typeName = "Lost" → (f.share : ℚ) = 0) ∧
    Structure.tunedFrequencies [mark, page, mark] .pages = Structure.tunedFrequencies [page, mark, mark] .pages := by
  intro mark page rows
  have produced : ∀ found ∈ [page, mark, mark], (ofTuned .pages).Produces found :=
    List.forall_mem_cons.mpr ⟨page_produced, marks_produced⟩
  have ⟨table, order⟩ := @produced_frequencies .pages [page, mark, mark] Specification.pageEntries [] rfl produced
  have nodes : Structure.nodes [page, mark, mark] = [page, .node 1 "Mark" "Letter" 1 [], mark, mark] := by
    simp [Structure.nodes, page, mark, Structure.walk_node]
  have lengths : ([page, mark, mark].map Structure.length).sum = 4 := by
    simp [page, mark, Structure.length_node]
  refine ⟨rfl, produced, table.choices, table.sum.trans lengths, table.occurring "Letter" ?occurs, fun f hf lost => ?absent,
    order _ (.swap page mark [mark])⟩
  case occurs =>
    rw [nodes]
    exact ⟨mark, by simp, rfl⟩
  case absent =>
    refine table.absent f hf ?_
    rw [nodes, lost]
    simp [page, mark, Structure.typeName]

end Sampler

end BoltzmannSampling
