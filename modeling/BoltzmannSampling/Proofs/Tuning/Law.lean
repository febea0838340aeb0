import Mathlib
import BoltzmannSampling.Proofs.Derivation.Flat
import BoltzmannSampling.Proofs.Derivation.WellFounded
import BoltzmannSampling.Proofs.Tuning.Branching

/-!
The law of tuned systems. At a solution of the equations the probabilities of all constructors of a derivation
multiply to its weights times `z` to its size, divided by the value of its type: whatever else two derivations differ
in, if they agree in size and weights they are equally likely.
-/

namespace BoltzmannSampling

namespace Derivation

-- The constructors of all nodes, those of auxiliary types included.
def constructors : Derivation → List (Constructor Symbol)
  | node _ c parts => c :: parts.flatMap constructors

theorem constructors_node (t c parts) : (node t c parts).constructors = c :: parts.flatMap constructors := by
  rw [constructors]

def weight (d : Derivation) : ℚ :=
  (d.constructors.map fun c => (Scalar.ofFloat c.weight : ℚ)).prod

-- The product of some numbers given for the constructors.
def product (p : Constructor Symbol → ℚ) (d : Derivation) : ℚ :=
  (d.constructors.map p).prod

theorem product_node (p : Constructor Symbol → ℚ) (t c parts) :
    (node t c parts).product p = p c * (parts.map (product p)).prod := by
  rw [product, constructors_node, List.map_cons, List.prod_cons, List.map_flatMap, List.flatMap_def, List.prod_flatten,
    List.map_map]
  rfl

end Derivation

namespace Equations

namespace Solves

variable {s : Specification} {z : ℚ} {values : String → ℚ} {T : String} {d : Derivation}

-- Whatever has a derivation has a positive term.
theorem value_pos (resolved : s.Resolved) (hz : 0 < z) (nonneg : ∀ T ∈ s.names, 0 ≤ values T)
    (sum : ∀ t ∈ s.types, (t.constructors.map (·.term z values)).sum = values t.name)
    (h : d ∈ s.derivations T) : 0 < values T := by
  refine Specification.derivations_induction (motive := fun T _ => 0 < values T) ?_ h
  intro t c parts ht hc hp
  have power : 0 < (Scalar.ofFloat c.weight : ℚ) * z ^ c.size := mul_pos (Scalar.ofFloat_pos c.positive) (pow_pos hz _)
  have own : 0 < c.term z values := by
    refine mul_pos power <| List.prod_pos fun v hv => ?_
    have ⟨r, hr, hv⟩ := List.mem_map.mp hv
    have ⟨_, _, hd⟩ := hp.exists_right hr
    exact hv ▸ hd.2
  have others : ∀ v ∈ t.constructors.map (·.term z values), 0 ≤ v := by
    intro v hv
    have ⟨c', hc', hv⟩ := List.mem_map.mp hv
    rw [← hv, Constructor.term]
    refine mul_nonneg (mul_nonneg (Scalar.ofFloat_pos c'.positive).le (pow_nonneg hz.le _)) <|
      List.prod_nonneg fun v hv => ?_
    have ⟨r, hr, hv⟩ := List.mem_map.mp hv
    exact hv ▸ nonneg r (resolved.refs t ht c' hc' r hr)
  rw [← sum t ht]
  exact own.trans_le <| List.single_le_sum others _ <| List.mem_map_of_mem hc

theorem share_pos (resolved : s.Resolved) (hz : 0 < z) (h : Solves s z values) {t : TypeDef} (ht : t ∈ s.types)
    {c : Constructor Symbol} (hc : c ∈ t.constructors) : 0 < share z values t c := by
  refine div_pos (mul_pos (mul_pos (Scalar.ofFloat_pos c.positive) (pow_pos hz _)) ?_) (h.positive t ht)
  refine List.prod_pos fun v hv => ?_
  have ⟨r, hr, hv⟩ := List.mem_map.mp hv
  have ⟨u, hu, hn⟩ := Specification.mem_names.mp (resolved.refs t ht c hc r hr)
  exact hv ▸ hn ▸ h.positive u hu

theorem share_sum (h : Solves s z values) {t : TypeDef} (ht : t ∈ s.types) :
    (t.constructors.map (share z values t)).sum = 1 := by
  have hd : share z values t = fun c => c.term z values * (values t.name)⁻¹ := funext fun _ => div_eq_mul_inv ..
  rw [hd, List.sum_map_mul_right, h.sum t ht, mul_inv_cancel₀ (h.positive t ht).ne']

theorem product_forest {p : Constructor Symbol → ℚ} {refs : List String} {parts : List Derivation}
    (hp : List.Forall₂ (fun r d => d.product p * values r = d.weight * z ^ d.size) refs parts) :
    (parts.map (Derivation.product p)).prod * (refs.map values).prod =
      (parts.map Derivation.weight).prod * z ^ (parts.map Derivation.size).sum := by
  induction hp
  case nil => simp
  case cons hd _ hi =>
    simp only [List.map_cons, List.prod_cons, List.sum_cons, pow_add]
    rw [mul_mul_mul_comm, hd, hi, mul_mul_mul_comm]

-- The values of the references cancel against those of the parts.
theorem product_law (h : Solves s z values) {p : Constructor Symbol → ℚ}
    (shares : ∀ t ∈ s.types, ∀ c ∈ t.constructors, p c = share z values t c) (hd : d ∈ s.derivations T) :
    d.product p * values T = d.weight * z ^ d.size := by
  refine Specification.derivations_induction
    (motive := fun T d => d.product p * values T = d.weight * z ^ d.size) ?_ hd
  intro t c parts ht hc hp
  have below := product_forest <| hp.imp fun _ _ h => h.2
  have hv : values t.name ≠ 0 := (h.positive t ht).ne'
  have weight : (Derivation.node t c parts).weight =
      Scalar.ofFloat c.weight * (parts.map Derivation.weight).prod := Derivation.product_node _ t c parts
  rw [Derivation.product_node, shares t ht c hc, share, Constructor.term, weight, Derivation.size_node, pow_add]
  calc
    _ = Scalar.ofFloat c.weight * z ^ c.size *
        ((parts.map (Derivation.product p)).prod * (c.refs.map values).prod) := by field_simp
    _ = _ := by rw [below, mul_mul_mul_comm]

end Solves

end Equations

namespace Specification

variable {s : Specification} {y : List ℚ}

-- The coordinate of a type in a vector over the table.
def coordinate (s : Specification) (y : List ℚ) (T : String) : ℚ := y.getD (s.names.idxOf T) 0

theorem map_coordinate (distinct : s.names.Nodup) (length : y.length = s.names.length) :
    s.names.map (s.coordinate y) = y := by
  refine List.ext_getElem (by rw [List.length_map, length]) fun i hi hy => ?_
  rw [List.getElem_map, coordinate, distinct.idxOf_getElem, List.getD_eq_getElem _ _ hy]

theorem check_system {c : Checked} {allowUnsafe : Bool} (h : s.check allowUnsafe = .ok c) : s = c.system := by
  simp only [check] at h
  split at h
  case h_1 => cases h; rfl
  case h_2 =>
    split at h
    case isTrue  => cases h; rfl
    case isFalse => cases h

-- A fixed point of the equations that is not negative is positive, as every type has a derivation.
theorem solves (resolved : s.Resolved) (productive : ∀ T ∈ s.names, (s.derivations T).Nonempty) {z : ℚ} (hz : 0 < z)
    (nonneg : ∀ v ∈ y, 0 ≤ v) (fixed : (Equations.ofSystem s).phi z y = y) :
    s.names.map (s.coordinate y) = y ∧ Equations.Solves s z (s.coordinate y) := by
  have length : y.length = s.names.length := by
    rw [← fixed, Equations.phi, Equations.byType, List.length_map, List.length_range]
    rfl
  have hy := map_coordinate resolved.names length
  rw [← hy, Equations.phi_ofSystem resolved, names, List.map_map] at fixed
  have sum := List.map_inj_left.mp fixed
  have mem {T : String} (hT : T ∈ s.names) : s.coordinate y T ∈ y := by
    have hm : s.coordinate y T ∈ s.names.map (s.coordinate y) := List.mem_map_of_mem hT
    rwa [hy] at hm
  refine ⟨hy, fun t ht => ?_, sum⟩
  obtain ⟨d, hd⟩ := productive t.name (name_mem_names ht)
  exact Equations.Solves.value_pos resolved hz (fun T hT => nonneg _ (mem hT)) sum hd

end Specification

namespace Tuned

theorem ofSolution_law {entries : List (Except Json Declaration)} {annotations : List (String × Json)}
    {s : Specification} {c : Checked} {z : ℚ} {y : List ℚ}
    (h : Specification.ofDeclarations entries annotations = .ok s) (hc : s.check false = .ok c) (hz : 0 < z)
    (nonneg : ∀ v ∈ y, 0 ≤ v) (fixed : (Equations.ofSystem s).phi z y = y) (report : BranchingFault ℚ → Failure)
    (mode : Mode) (singularity : ℚ) :
    (∀ v ∈ y, 0 < v) ∧
    ∃ tuned, ofSolution report c (Equations.ofSystem s) mode singularity ⟨z, y⟩ = .ok tuned ∧ tuned.system = s ∧
      tuned.values = s.names.zip y ∧
      (∀ ps ∈ tuned.probabilities, (∀ p ∈ ps, 0 < p) ∧ ps.sum = 1) ∧
      (tuned.probabilities = s.types.map fun t => t.constructors.map fun c =>
        Scalar.ofFloat c.weight * z ^ c.size * (c.refs.map (s.coordinate y)).prod / s.coordinate y t.name) ∧
      (∀ T, ∀ d ∈ s.derivations T,
        d.product (fun c => (tuned.probability? c.name).getD 0) = d.weight * z ^ d.size / s.coordinate y T) ∧
      ∀ T, ∀ d ∈ s.derivations T, ∀ d' ∈ s.derivations T, d.size = d'.size → d.weight = d'.weight →
        d.product (fun c => (tuned.probability? c.name).getD 0) =
          d'.product fun c => (tuned.probability? c.name).getD 0 := by
  have resolved := Specification.resolved h
  have checked := Specification.check_strict.mp ⟨c, hc⟩
  have productive (T) (hT : T ∈ s.names) := Specification.mem_productive.mp (checked T hT).1
  have ⟨hy, solves⟩ := s.solves resolved productive hz nonneg fixed
  obtain rfl := Specification.check_system hc
  have ⟨tuned, ht, hs, hv, hp⟩ := ofSolution_solves resolved solves report mode singularity
  rw [hy] at ht hv
  have shares : ∀ t ∈ c.system.types, ∀ k ∈ t.constructors,
      (tuned.probability? k.name).getD 0 = Equations.Solves.share z (c.system.coordinate y) t k :=
    fun t hm k hk => by rw [probability?_map hs resolved hp hm hk, Option.getD_some]
  have law {T : String} {d : Derivation} (hd : d ∈ c.system.derivations T) :
      d.product (fun k => (tuned.probability? k.name).getD 0) =
        d.weight * z ^ d.size / c.system.coordinate y T := by
    have ⟨hm, hn⟩ := Specification.type_mem hd
    exact eq_div_of_mul_eq (hn ▸ solves.positive _ hm).ne' (solves.product_law shares hd)
  refine ⟨?_, tuned, ht, hs, hv, ?_, hp, fun T d hd => law hd, fun T d hd d' hd' size weight => ?_⟩
  · intro v hm
    rw [← hy] at hm
    have ⟨T, hT, hv⟩ := List.mem_map.mp hm
    have ⟨t, ht, hn⟩ := Specification.mem_names.mp hT
    exact hv ▸ hn ▸ solves.positive t ht
  · intro ps hm
    have ⟨t, ht, he⟩ := List.mem_map.mp (hp ▸ hm)
    rw [← he]
    refine ⟨fun p hm => ?_, solves.share_sum ht⟩
    have ⟨k, hk, he⟩ := List.mem_map.mp hm
    exact he ▸ solves.share_pos resolved hz ht hk
  · rw [law hd, law hd', size, weight]

theorem words_law : Specification.ofDeclarations Specification.wordEntries [] = .ok .words ∧
    ∃ tuned : Tuned ℚ, tuned.system = .words ∧ tuned.probabilities = [[1 / 3, 2 / 3], [3 / 4, 1 / 4]] ∧
      ∀ d ∈ Specification.words.derivations "Word",
        d.product (fun c => (tuned.probability? c.name).getD 0) = d.weight * (1 / 4) ^ d.size / (3 / 2) := by
  have fixed : (Equations.ofSystem .words).phi (1 / 4 : ℚ) [3 / 2, 4 / 3] = [3 / 2, 4 / 3] := by decide +kernel
  have ⟨_, tuned, _, hs, _, _, hp, law, _⟩ := @ofSolution_law Specification.wordEntries [] .words _ (1 / 4)
    [3 / 2, 4 / 3] rfl rfl (by norm_num) (by norm_num) fixed (fun _ => .absent) .cumulative (1 / 2)
  refine ⟨rfl, tuned, hs, hp.trans ?_, law "Word"⟩
  decide +kernel

end Tuned

end BoltzmannSampling
