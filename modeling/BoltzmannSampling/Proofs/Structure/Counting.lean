import Mathlib
import BoltzmannSampling.Proofs.Assoc
import BoltzmannSampling.Proofs.Numeric.Rational
import BoltzmannSampling.Proofs.Specification.Resolved
import BoltzmannSampling.Proofs.Structure.Basic
import BoltzmannSampling.Structure.Statistics

/-!
The constructors of structures counted. Where all nodes are of declared types of a system, its table of frequencies has
a row for each constructor of those types, in the order of the system, and every row is determined by how many nodes
there are of the constructor and of the type.
-/

namespace BoltzmannSampling

theorem total_eq_sum (ns : List Nat) : total ns = ns.sum := by
  induction ns
  case nil          => rfl
  case cons n ns hi => rw [total, hi, List.sum_cons]

section Keys

variable {κ : Type} [BEq κ] [LawfulBEq κ] {keys xs : List κ}

-- What is counted by key is counted once, if it all has keys.
theorem sum_count (distinct : keys.Nodup) (covered : ∀ x ∈ xs, x ∈ keys) : (keys.map xs.count).sum = xs.length := by
  simpa using Assoc.sum_count_mul distinct covered fun _ => (1 : Nat)

theorem sum_count_filter (distinct : keys.Nodup) (covered : ∀ x ∈ xs, x ∈ keys) (p : κ → Bool) :
    ((keys.filter p).map xs.count).sum = xs.countP p := by
  have counts : (keys.filter p).map xs.count = (keys.filter p).map (xs.filter p).count :=
    List.map_congr_left fun k hk => (List.count_filter (List.mem_filter.mp hk).2).symm
  have covered : ∀ x ∈ xs.filter p, x ∈ keys.filter p := fun x hx =>
    have ⟨hx, hp⟩ := List.mem_filter.mp hx
    List.mem_filter.mpr ⟨covered x hx, hp⟩
  rw [counts, sum_count (distinct.filter p) covered, List.countP_eq_length_filter]

theorem pairwise_idxOf (distinct : keys.Nodup) : keys.Pairwise fun a b => keys.idxOf a ≤ keys.idxOf b := by
  rw [List.pairwise_iff_getElem]
  intro i j hi hj lt
  rw [distinct.idxOf_getElem, distinct.idxOf_getElem]
  exact lt.le

-- What has distinct keys is put into the order of the keys.
theorem mergeSort_idxOf {α : Type} {key : α → κ} {rows sorted : List α} (distinct : keys.Nodup)
    (perm : rows.Perm sorted) (order : (sorted.map key).Sublist keys) :
    rows.mergeSort (fun a b => keys.idxOf (key a) ≤ keys.idxOf (key b)) = sorted := by
  have trans (a b c : α) (hab : decide (keys.idxOf (key a) ≤ keys.idxOf (key b)) = true)
      (hbc : decide (keys.idxOf (key b) ≤ keys.idxOf (key c)) = true) :
      decide (keys.idxOf (key a) ≤ keys.idxOf (key c)) = true :=
    decide_eq_true ((of_decide_eq_true hab).trans (of_decide_eq_true hbc))
  have total (a b : α) : (decide (keys.idxOf (key a) ≤ keys.idxOf (key b)) ||
      decide (keys.idxOf (key b) ≤ keys.idxOf (key a))) = true := by
    simpa using le_total (keys.idxOf (key a)) (keys.idxOf (key b))
  have ordered : sorted.Pairwise fun a b => decide (keys.idxOf (key a) ≤ keys.idxOf (key b)) = true := by
    simpa [List.pairwise_map] using (pairwise_idxOf distinct).sublist order
  have perm := (List.mergeSort_perm rows fun a b => decide (keys.idxOf (key a) ≤ keys.idxOf (key b))).trans perm
  refine List.Perm.eq_of_pairwise (fun a b ha hb hab hba => ?_) (List.pairwise_mergeSort trans total rows) ordered perm
  have ha := perm.mem_iff.mp ha
  have same := (of_decide_eq_true hab).antisymm (of_decide_eq_true hba)
  have same := (List.idxOf_inj (order.subset (List.mem_map_of_mem ha))).mp same
  exact List.inj_on_of_nodup_map (order.nodup distinct) ha hb same

end Keys

namespace Structure

variable {structures : List Structure} {s : Specification} {tuned : Tuned} {known : List Choice}

def choice (s : Structure) : Choice := (s.typeName, s.name)

def nodes (structures : List Structure) : List Structure := structures.flatMap walk

def chosen (structures : List Structure) : List Choice := (nodes structures).map choice

-- The row of a choice: how many nodes take it, and how many are of its type.
def row (structures : List Structure) (c : Choice) : Frequency :=
  ⟨c.1, c.2, (chosen structures).count c, (chosen structures).countP (·.1 == c.1)⟩

theorem length_chosen (structures : List Structure) :
    (chosen structures).length = (structures.map length).sum := by
  rw [chosen, List.length_map, nodes, List.length_flatMap]
  rfl

theorem count_row (structures : List Structure) (c : Choice) : (row structures c).count =
    (nodes structures).countP fun node => node.typeName = c.1 ∧ node.name = c.2 := by
  rw [row, chosen, List.count, List.countP_map]
  refine List.countP_congr fun x _ => ?_
  simp [choice, Prod.ext_iff]

theorem total_row (structures : List Structure) (c : Choice) : (row structures c).total =
    (nodes structures).countP fun node => node.typeName = c.1 := by
  rw [row, chosen, List.countP_map]
  refine List.countP_congr fun x _ => ?_
  simp [choice]

theorem row_perm {structures' : List Structure} (perm : structures'.Perm structures) :
    row structures' = row structures := by
  have chosen : (chosen structures').Perm (chosen structures) := (perm.flatMap_right walk).map choice
  funext c
  rw [row, row, chosen.count_eq, chosen.countP_eq]

theorem countChoice_eq_add (counts : List (Choice × Nat)) (choice : Choice) (more : Nat) :
    countChoice counts choice more = Assoc.add counts choice more := by
  induction counts
  case nil => simp [countChoice, Assoc.add, Assoc.put, Assoc.get?]
  case cons count rest hi =>
    obtain ⟨c, n⟩ := count
    cases h : c == choice
    case true  => simp [countChoice, Assoc.add, Assoc.put, Assoc.get?, h]
    case false =>
      rw [countChoice, h, if_neg Bool.false_ne_true, hi]
      simp [Assoc.add, Assoc.put, Assoc.get?, h]

-- Every node counts once, and what is expected counts in no other way than that it is there.
theorem counts_eq (structures : List Structure) (expected : List Choice) :
    expected.foldl (fun counts c => countChoice counts c 0) (choices structures) =
      (chosen structures ++ expected).eraseDups.map fun c => (c, (chosen structures).count c) := by
  let amounts := (chosen structures).map (fun c => (c, 1)) ++ expected.map fun c => (c, 0)
  have added : expected.foldl (fun counts c => countChoice counts c 0) (choices structures) =
      amounts.foldl (fun counts a => Assoc.add counts a.1 a.2) [] := by
    rw [List.foldl_append, List.foldl_map, List.foldl_map, chosen, List.foldl_map]
    simp only [← countChoice_eq_add]
    rfl
  have names : amounts.map (·.1) = chosen structures ++ expected := by simp [amounts, Function.comp_def]
  have number (c : Choice) : Assoc.amountOf amounts c = (chosen structures).count c := by
    rw [Assoc.amountOf_append, Assoc.amountOf_const, Assoc.amountOf_const, Nat.mul_one, Nat.mul_zero, Nat.add_zero]
  rw [added, Assoc.foldl_add, names]
  simp only [number]

theorem withTotals_eq (structures : List Structure) (distinct : known.Nodup)
    (covered : ∀ c ∈ chosen structures, c ∈ known) :
    withTotals (known.map fun c => (c, (chosen structures).count c)) = known.map (row structures) := by
  rw [withTotals, List.map_map]
  refine List.map_congr_left fun c _ => ?_
  have total : total (((known.map fun c => (c, (chosen structures).count c)).filter (·.1.1 == c.1)).map (·.2)) =
      (chosen structures).countP (·.1 == c.1) := by
    rw [total_eq_sum, List.filter_map, List.map_map]
    exact sum_count_filter distinct covered (·.1 == c.1)
  simp only [Function.comp_apply, row, total]

section Tables

-- The constructors of the declared types stand in the order of the system.
theorem expected_sublist (s : Specification) : ((expected s).map (·.2)).Sublist s.constructorNames := by
  have names : (expected s).map (·.2) = s.userTypes.flatMap fun t => t.constructors.map (·.name) := by
    simp [expected, List.map_flatMap, Function.comp_def]
  have all : s.constructorNames = s.types.flatMap fun t => t.constructors.map (·.name) := by
    simp [Specification.constructorNames, Specification.productions, List.map_flatMap, Function.comp_def]
  rw [names, all]
  exact List.filter_sublist.flatMap _

theorem mem_expected {c : Choice} :
    c ∈ expected s ↔ ∃ t ∈ s.userTypes, t.name = c.1 ∧ ∃ k ∈ t.constructors, k.name = c.2 := by
  simp only [expected, List.mem_flatMap, List.mem_map, Prod.ext_iff]
  tauto

theorem nodup_expected (resolved : s.Resolved) : (expected s).Nodup :=
  ((expected_sublist s).nodup resolved.constructors).of_map _

-- The whole table, where all nodes are of declared types.
theorem tunedFrequencies_eq (resolved : tuned.system.Resolved)
    (covered : ∀ c ∈ chosen structures, c ∈ expected tuned.system) : tunedFrequencies structures tuned =
      (expected tuned.system).map fun c => (row structures c, tuned.probability? c.2) := by
  have same : (chosen structures ++ expected tuned.system).eraseDups.Perm (expected tuned.system) := by
    refine (List.perm_ext_iff_of_nodup (Assoc.nodup_eraseDups _) (nodup_expected resolved)).mpr fun c => ?_
    rw [List.mem_eraseDups, List.mem_append, or_iff_right_of_imp (covered c)]
  have rows := withTotals_eq structures (Assoc.nodup_eraseDups (chosen structures ++ expected tuned.system))
    fun c hc => List.mem_eraseDups.mpr (List.mem_append_left _ hc)
  have places : ((expected tuned.system).map (row structures)).map (·.constructor) = (expected tuned.system).map (·.2) :=
    List.map_map ..
  rw [tunedFrequencies, counts_eq, rows,
    mergeSort_idxOf resolved.constructors (same.map _) (places ▸ expected_sublist tuned.system), List.map_map]
  rfl

end Tables

section Shares

theorem share_eq (f : Frequency) : (f.share : ℚ) = f.count / f.total := by
  rw [Frequency.share]
  split
  case isTrue none => rw [none, Nat.cast_zero, div_zero]; rfl
  case isFalse     => rfl

-- The shares of the constructors of a type are its nodes over its nodes.
theorem sum_share (distinct : known.Nodup) (covered : ∀ c ∈ chosen structures, c ∈ known) (T : String) :
    ((known.filter (·.1 == T)).map fun c => ((row structures c).share : ℚ)).sum =
      (chosen structures).countP (·.1 == T) / (chosen structures).countP (·.1 == T) := by
  have shares : ∀ c ∈ known.filter (·.1 == T), ((row structures c).share : ℚ) =
      (chosen structures).count c * (1 / (chosen structures).countP (·.1 == T)) := by
    intro c hc
    have same : c.1 = T := by simpa using (List.mem_filter.mp hc).2
    rw [share_eq, row, same, mul_one_div]
  have all := congrArg (Nat.cast (R := ℚ)) (sum_count_filter distinct covered (·.1 == T))
  rw [Nat.cast_list_sum, List.map_map] at all
  rw [List.map_congr_left shares, List.sum_map_mul_right, ← all, mul_one_div]
  rfl

end Shares

-- What a table of frequencies says of structures of a system. It has a row for each constructor of each declared type,
-- in their order. A row counts the nodes of its constructor and has their share of the nodes of its type, and all rows
-- together count all nodes. In exact arithmetic the shares of a type that has nodes are one together, and those of other
-- types are zero.
structure Tabulates (s : Specification) (structures : List Structure) (rows : List Frequency) : Prop where
  choices   : rows.map (fun f => (f.typeName, f.constructor)) =
    s.userTypes.flatMap fun t => t.constructors.map fun c => (t.name, c.name)
  distinct  : (rows.map (·.constructor)).Nodup
  counts    : ∀ f ∈ rows, f.count =
    (nodes structures).countP fun node => node.typeName = f.typeName ∧ node.name = f.constructor
  shares    : ∀ f ∈ rows, (f.share : ℚ) = f.count / ((nodes structures).countP fun node => node.typeName = f.typeName : Nat)
  sum       : (rows.map (·.count)).sum = (structures.map length).sum
  occurring : ∀ T, (∃ node ∈ nodes structures, node.typeName = T) →
    ((rows.filter (·.typeName == T)).map fun f => (f.share : ℚ)).sum = 1
  absent    : ∀ f ∈ rows, (∀ node ∈ nodes structures, node.typeName ≠ f.typeName) → (f.share : ℚ) = 0

theorem tabulates (resolved : s.Resolved) (covered : ∀ c ∈ chosen structures, c ∈ expected s) :
    Tabulates s structures ((expected s).map (row structures)) where
  choices := by
    rw [List.map_map]
    exact List.map_id _
  distinct := by
    rw [List.map_map]
    exact (expected_sublist s).nodup resolved.constructors
  counts := by
    rw [List.forall_mem_map]
    exact fun c _ => count_row structures c
  shares := by
    rw [List.forall_mem_map]
    exact fun c _ => total_row structures c ▸ share_eq (row structures c)
  sum := by
    rw [List.map_map, ← length_chosen]
    exact sum_count (nodup_expected resolved) covered
  occurring := by
    intro T ⟨x, hx, type⟩
    have positive : 0 < (chosen structures).countP (·.1 == T) :=
      List.countP_pos_iff.mpr ⟨x.choice, List.mem_map_of_mem hx, beq_iff_eq.mpr type⟩
    rw [List.filter_map, List.map_map]
    exact (sum_share (nodup_expected resolved) covered T).trans (div_self (Nat.cast_ne_zero.mpr positive.ne'))
  absent := by
    rw [List.forall_mem_map]
    intro c _ (none : ∀ x ∈ nodes structures, x.typeName ≠ c.1)
    have total : (row structures c).total = 0 := by
      rw [total_row, List.countP_eq_zero]
      exact fun x hx => by simpa using none x hx
    rw [share_eq, total, Nat.cast_zero, div_zero]

end Structure

end BoltzmannSampling
