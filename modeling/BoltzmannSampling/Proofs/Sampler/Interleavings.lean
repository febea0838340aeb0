import Mathlib
import BoltzmannSampling.Proofs.Sampler.Jobs

/-!
Several structures drawn at once, one after another or on a pool of workers. Every structure has a generator of its own,
from a child of the entropy, so neither the number of workers nor the order of their steps has any influence on it.
-/

namespace BoltzmannSampling

namespace Entropy

def child (e : Entropy) (i : Nat) : Entropy := ⟨e.words, e.key ++ [e.children + i], 0⟩

end Entropy

namespace Sampler

def asks (e : Entropy) (i : Nat) : Task := .asked (.ofEntropy (e.child i))

def jobs (e : Entropy) (count : Int) : List Task := (List.range count.toNat).map (asks e)

-- The entropy to draw from, if a request for several structures is one that can be served.
def grant (s : Sampler) (r : DrawRequest) (count : Int) (entropy : Except Failure Entropy) : Except Failure Entropy := do
  checkCount count
  let _ ← s.check r
  entropy

-- What a request for several structures can return: there is a pool of workers for them, which make their steps in some
-- order, if there is more than one worker and more than one job.
def Returns (s : Sampler) (r : DrawRequest) (count : Int) (entropy : Except Failure Entropy) (workers : Option Int)
    (v : Except Failure (List Structure)) : Prop :=
  match s.grant r count entropy with
  | .error f => v = .error f
  | .ok e    =>
    if 1 < workers.getD 1 ∧ 1 < count then
      ∃ p, Pool.Steps (s.work r) (workers.getD 1).toNat (.start (jobs e count)) p ∧ p.Returned v
    else (s.work r).Serial (jobs e count) v

variable {s : Sampler} {r : DrawRequest} {count more : Int} {entropy : Except Failure Entropy} {workers : Option Int}
  {e : Entropy} {f : Failure} {v v' : Except Failure (List Structure)} {found : List Structure}

theorem returns_refused (refused : s.grant r count entropy = .error f) :
    s.Returns r count entropy workers v ↔ v = .error f := by
  simp only [Returns, refused]

theorem returns_granted (granted : s.grant r count entropy = .ok e) :
    s.Returns r count entropy workers v ↔ (s.work r).Serial (jobs e count) v := by
  simp only [Returns, granted]
  split
  case isTrue several => exact Pool.returned_iff (by omega)
  case isFalse        => rfl

theorem Returns.unique (h : s.Returns r count entropy workers v) (h' : s.Returns r count entropy workers v') :
    v = v' := by
  cases hs : s.grant r count entropy
  case error => rw [returns_refused hs] at h h'; rw [h, h']
  case ok    => exact ((returns_granted hs).mp h).unique ((returns_granted hs).mp h')

theorem returns_ok (granted : s.grant r count entropy = .ok e) : s.Returns r count entropy workers (.ok found) ↔
    List.Forall₂ (fun i b => (s.work r).Yields (asks e i) (.ok b)) (List.range count.toNat) found := by
  rw [returns_granted granted, Machine.serial_ok, jobs, List.forall₂_map_left_iff]

theorem range_split {i n : Nat} (h : i < n) : List.range n = List.range i ++ i :: List.range' (i + 1) (n - (i + 1)) := by
  rw [List.range_eq_range', List.range_eq_range']
  have rest : List.range' (0 + i * 1) (n - i) = i :: List.range' (i + 1) (n - (i + 1)) :=
    List.range'_eq_cons_iff.mpr ⟨by omega, by omega, rfl⟩
  exact List.range'_eq_append_iff.mpr ⟨i, h.le, rfl, rest.symm⟩

theorem returns_error (granted : s.grant r count entropy = .ok e) : s.Returns r count entropy workers (.error f) ↔
    ∃ i < count.toNat, (s.work r).Yields (asks e i) (.error f) ∧
      ∀ k < i, ∃ b, (s.work r).Yields (asks e k) (.ok b) := by
  rw [returns_granted granted, Machine.serial_error, jobs]
  constructor
  · intro ⟨before, x, after, bs, he, results, ends⟩
    have here : before.length < count.toNat := by
      have := congrArg List.length he
      simp only [List.length_map, List.length_range, List.length_append, List.length_cons] at this
      omega
    have at_ {k : Nat} (hk : k < count.toNat) : (before ++ x :: after)[k]? = some (asks e k) := by
      rw [← he, List.getElem?_map, List.getElem?_range hk, Option.map_some]
    have last : x = asks e before.length := by simpa using at_ here
    refine ⟨before.length, here, last ▸ ends, fun k hk => ?_⟩
    have earlier := at_ (hk.trans here)
    rw [List.getElem?_append_left hk] at earlier
    have ⟨b, _, result⟩ := results.exists_right (List.mem_of_getElem? earlier)
    exact ⟨b, result⟩
  · intro ⟨i, hi, ends, earlier⟩
    have ⟨bs, results⟩ := List.Forall₂.of_exists (R := fun k b => (s.work r).Yields (asks e k) (.ok b))
      fun k hk => earlier k (List.mem_range.mp hk)
    refine ⟨(List.range i).map (asks e), asks e i, (List.range' (i + 1) (count.toNat - (i + 1))).map (asks e), bs, ?_,
      List.forall₂_map_left_iff.mpr results, ends⟩
    rw [range_split hi, List.map_append, List.map_cons]

theorem grant_ok : s.grant r count entropy = .ok e ↔ 0 ≤ count ∧ (∃ T, s.check r = .ok T) ∧ entropy = .ok e := by
  simp only [grant, checkCount]
  by_cases hc : count < 0
  · simp [hc, bind, Except.bind]
  · simp [hc, bind, Except.bind]
    cases s.check r <;> simp
    omega

-- The first structures do not depend on how many there are.
theorem returns_take (fewer : count ≤ more) (nonneg : 0 ≤ count) (h : s.Returns r more entropy workers (.ok found)) (workers' : Option Int) :
    s.Returns r count entropy workers' (.ok (found.take count.toNat)) := by
  cases hs : s.grant r more entropy
  case error f => cases (returns_refused hs).mp h
  case ok e =>
    have ⟨_, accepted, seeded⟩ := grant_ok.mp hs
    have drawn := List.forall₂_take count.toNat ((returns_ok hs).mp h)
    rw [List.take_range, Nat.min_eq_left (Int.toNat_le_toNat fewer)] at drawn
    exact (returns_ok (grant_ok.mpr ⟨nonneg, accepted, seeded⟩)).mpr drawn

theorem sampleMany_refused (refused : s.grant r count entropy = .error f) :
    (s.sampleMany r count entropy).1 = .error f := by
  unfold sampleMany
  unfold grant at refused
  cases hc : checkCount count <;> cases hs : s.check r <;> cases entropy <;> simp_all [bind, Except.bind]

theorem sampleMany_granted (granted : s.grant r count entropy = .ok e) :
    (s.sampleMany r count entropy).1 = (List.range count.toNat).mapM fun i => s.sampleOwn r (e.child i) := by
  have ⟨nonneg, ⟨T, accepted⟩, seeded⟩ := grant_ok.mp granted
  have counted : checkCount count = .ok () := if_neg (by omega)
  simp only [sampleMany, counted, accepted, seeded, Entropy.spawn, List.mapM_map]
  rfl

-- Drawing the structures at once gives what is returned, unless one of them takes longer than can be waited for.
theorem returns_sampleMany (granted : s.grant r count entropy = .ok e) (workers : Option Int) :
    s.Returns r count entropy workers (s.sampleMany r count entropy).1 ∨
      ∃ x ∈ jobs e count, (s.work r).Lasts x patience := by
  by_cases h : ∀ i ∈ List.range count.toNat, (s.work r).Yields (asks e i) (s.sampleOwn r (e.child i))
  case pos =>
    left
    rw [returns_granted granted, sampleMany_granted granted]
    exact Machine.serial_mapM h
  case neg =>
    have ⟨i, hi, other⟩ : ∃ i ∈ List.range count.toNat,
        ¬(s.work r).Yields (asks e i) (s.sampleOwn r (e.child i)) := by simpa using h
    exact .inr ⟨_, List.mem_map_of_mem hi, (s.sample_yields r _).resolve_left other⟩

-- What is said of a request that is served, with so many workers: on a pool nothing comes out but what the jobs give one
-- after another; the structures are each what its own child of the entropy gives, or the failure is that of the first
-- job that has one; the first structures do not depend on how many there are; and all this is about `sampleMany`.
structure Served (s : Sampler) (r : DrawRequest) (count : Int) (entropy : Except Failure Entropy) (workers : Option Int)
    (e : Entropy) : Prop where
  serial    : ∀ v, s.Returns r count entropy workers v ↔ (s.work r).Serial (jobs e count) v
  reliable  : ∀ staff > 0, ∀ p, Pool.Steps (s.work r) staff (.start (jobs e count)) p →
    Pool.Reliable (s.work r) staff (jobs e count) p
  succeeds  : ∀ found, s.Returns r count entropy workers (.ok found) ↔
    List.Forall₂ (fun i b => (s.work r).Yields (asks e i) (.ok b)) (List.range count.toNat) found
  fails     : ∀ f, s.Returns r count entropy workers (.error f) ↔
    ∃ i < count.toNat, (s.work r).Yields (asks e i) (.error f) ∧ ∀ k < i, ∃ b, (s.work r).Yields (asks e k) (.ok b)
  exceeds   : ∀ i f, (s.work r).Yields (asks e i) (.error f) → f = .absent ∨ ∃ n, r.maxAttempts = some n ∧
    f = if n < 1 then .request .maxAttempts else .sampling (.attemptsExceeded n.toNat r.lower r.upper)
  first     : ∀ more workers' found, count ≤ more → s.Returns r more entropy workers' (.ok found) →
    s.Returns r count entropy workers (.ok (found.take count.toNat))
  atOnce    : s.Returns r count entropy workers (s.sampleMany r count entropy).1 ∨
    ∃ x ∈ jobs e count, (s.work r).Lasts x patience

theorem served (granted : s.grant r count entropy = .ok e) (workers : Option Int) :
    s.Served r count entropy workers e :=
  have ⟨nonneg, ⟨_, accepted⟩, _⟩ := grant_ok.mp granted
  { serial   := fun _ => returns_granted granted
    reliable := fun _ staffed _ steps => Pool.reliable staffed steps
    succeeds := fun _ => returns_ok granted
    fails    := fun _ => returns_error granted
    exceeds  := fun _ _ fails => asked_fails accepted fails
    first    := fun _ _ _ fewer returns => returns_take fewer nonneg returns workers
    atOnce   := returns_sampleMany granted workers }

-- Neither the number of workers nor the order of their steps has any influence on what is returned.
theorem sampleMany_schedules (s : Sampler) (r : DrawRequest) (count : Int) (entropy : Except Failure Entropy)
    (workers : Option Int) :
    (∀ v, s.Returns r count entropy workers v ↔ s.Returns r count entropy none v) ∧
    (∀ v v', s.Returns r count entropy workers v → s.Returns r count entropy workers v' → v = v') ∧
    (∀ f, s.grant r count entropy = .error f →
      s.Returns r count entropy workers (.error f) ∧ (s.sampleMany r count entropy).1 = .error f) ∧
    ∀ e, s.grant r count entropy = .ok e → s.Served r count entropy workers e := by
  refine ⟨fun v => ?_, fun v v' => Returns.unique, fun f refused => ?_, fun e granted => served granted workers⟩
  · cases h : s.grant r count entropy
    case error => rw [returns_refused h, returns_refused h]
    case ok    => rw [returns_granted h, returns_granted h]
  · exact ⟨(returns_refused refused).mpr rfl, sampleMany_refused refused⟩

end Sampler

-- Leaves, which are all alike.
def Tuned.leaves : Tuned where
  system         := ⟨[⟨"Leaf", [⟨"Leaf", [.atom .unit], 1, isWeight_one⟩], .declared none 0⟩], "Leaf", []⟩
  classification := .rational
  mode           := .cumulative
  singularity    := 1
  parameter      := 1
  values         := [("Leaf", 1)]
  probabilities  := [[1]]
  aligned        := rfl

namespace Sampler

theorem leaf_found (g : Generator) : ((ofTuned .leaves).work ⟨some "Leaf", .int 1, .int 1, some 1⟩).Ends (.asked g) 3
    (.ok (.node 0 "Leaf" "Leaf" 1 [])) :=
  .more rfl (.more rfl (.last rfl))

theorem leaf_small (g : Generator) : ((ofTuned .leaves).work ⟨some "Leaf", .int 2, .int 2, some 1⟩).Ends (.asked g) 4
    (.error (.sampling (.attemptsExceeded 1 (.int 2) (.int 2)))) :=
  .more rfl (.more rfl (.more rfl (.last rfl)))

theorem leaves_schedules :
    let s := ofTuned .leaves
    let e : Entropy := ⟨[7], [], 0⟩
    let r : DrawRequest := ⟨some "Leaf", .int 1, .int 1, some 1⟩
    let leaf : Structure := .node 0 "Leaf" "Leaf" 1 []
    s.grant r 2 (.ok e) = .ok e ∧ s.Returns r 2 (.ok e) (some 2) (.ok [leaf, leaf]) ∧
      s.Returns r 1 (.ok e) none (.ok [leaf]) ∧ (s.sampleMany r 2 (.ok e)).1 = .ok [leaf, leaf] ∧
      s.Returns ⟨some "Leaf", .int 2, .int 2, some 1⟩ 2 (.ok e) (some 2)
        (.error (.sampling (.attemptsExceeded 1 (.int 2) (.int 2)))) := by
  intro s e r leaf
  have ⟨_, unique, _, served⟩ := sampleMany_schedules s r 2 (.ok e) (some 2)
  have served := served e rfl
  have both : s.Returns r 2 (.ok e) (some 2) (.ok [leaf, leaf]) :=
    (served.succeeds _).mpr (.cons ⟨3, leaf_found _⟩ (.cons ⟨3, leaf_found _⟩ .nil))
  refine ⟨rfl, both, ?first, ?atOnce, ?small⟩
  case first =>
    have ⟨_, _, _, served⟩ := sampleMany_schedules s r 1 (.ok e) none
    exact (served e rfl).first 2 (some 2) _ (by decide) both
  case atOnce =>
    refine unique _ _ (served.atOnce.resolve_right fun ⟨x, hx, lasts⟩ => ?_) both
    have ⟨i, _, he⟩ := List.mem_map.mp hx
    rw [← he] at lasts
    exact absurd (lasts.lt (leaf_found _)) (by decide)
  case small =>
    have ⟨_, _, _, served⟩ := sampleMany_schedules s ⟨some "Leaf", .int 2, .int 2, some 1⟩ 2 (.ok e) (some 2)
    exact ((served e rfl).fails _).mpr ⟨0, by decide, ⟨4, leaf_small _⟩, nofun⟩

end Sampler

end BoltzmannSampling
