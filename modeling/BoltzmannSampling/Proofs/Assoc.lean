import Mathlib
import BoltzmannSampling.Assoc

/-!
Lists of named values. Putting a new name appends it, so that fields whose names differ are their own entries, and the
names of entries always differ. Amounts under the same name add up.
-/

namespace BoltzmannSampling

namespace Assoc

variable {κ β : Type} [BEq κ] [LawfulBEq κ] {entries fields : List (κ × β)} {name : κ}

theorem put_of_not_mem (h : name ∉ entries.map (·.1)) (value : β) : put entries name value = entries ++ [(name, value)] := by
  induction entries
  case nil => rfl
  case cons e rest hi =>
    simp only [List.map_cons, List.mem_cons, not_or] at h
    have hn : (e.1 == name) = false := beq_eq_false_iff_ne.mpr fun he => h.1 he.symm
    simp [put, hn, hi h.2]

theorem nodup_put (h : (entries.map (·.1)).Nodup) (value : β) : ((put entries name value).map (·.1)).Nodup := by
  by_cases hm : name ∈ entries.map (·.1)
  case neg =>
    rw [put_of_not_mem hm, List.map_append, List.nodup_append']
    exact ⟨h, List.nodup_singleton _, by simpa using hm⟩
  case pos =>
    suffices (put entries name value).map (·.1) = entries.map (·.1) from this ▸ h
    clear h
    induction entries
    case nil => cases hm
    case cons e rest hi =>
      by_cases hn : e.1 = name
      case pos => simp [put, hn]
      case neg =>
        have hk : (e.1 == name) = false := beq_eq_false_iff_ne.mpr hn
        have hm := (List.mem_cons.mp hm).resolve_left (Ne.symm hn)
        simp [put, hk, hi hm]

theorem mem_put_names {value : β} {n : κ} :
    n ∈ (put entries name value).map (·.1) ↔ n ∈ entries.map (·.1) ∨ n = name := by
  induction entries
  case nil => simp [put]
  case cons e rest hi =>
    by_cases hn : e.1 = name
    case pos =>
      have hk : (e.1 == name) = true := beq_iff_eq.mpr hn
      rw [put, if_pos hk, List.map_cons, List.map_cons, List.mem_cons, hn, or_right_comm, or_self]
    case neg =>
      have hk : (e.1 == name) = false := beq_eq_false_iff_ne.mpr hn
      simp only [put, hk, Bool.false_eq_true, if_false, List.map_cons, List.mem_cons, hi, or_assoc]

theorem get?_put {value : β} {n : κ} :
    get? (put entries name value) n = if name == n then some value else get? entries n := by
  induction entries
  case nil =>
    by_cases hn : name = n <;> simp [put, get?, hn]
  case cons e rest hi =>
    simp only [get?] at hi ⊢
    by_cases hk : e.1 = name
    case pos => by_cases hn : name = n <;> simp [put, hk, hn]
    case neg =>
      by_cases hn : e.1 = n
      case pos =>
        have other : n ≠ name := fun h => hk (hn.trans h)
        simp [put, hn, other, other.symm]
      case neg => simp [put, hk, hn, hi]

theorem put_put (entries : List (κ × β)) (name : κ) (value : β) :
    put (put entries name value) name value = put entries name value := by
  induction entries
  case nil => simp [put]
  case cons e rest hi =>
    by_cases hn : (e.1 == name) = true
    case pos => simp [put, hn]
    case neg => simp [put, hn, hi]

theorem ofFields_nodup (fields : List (κ × β)) : ((ofFields fields).map (·.1)).Nodup := by
  let Distinct (entries : List (κ × β)) : Prop := (entries.map (·.1)).Nodup
  exact List.foldlRecOn fields _ (motive := Distinct) List.nodup_nil fun _ h f _ => nodup_put h f.2

theorem mem_ofFields_names {n : κ} : n ∈ (ofFields fields).map (·.1) ↔ n ∈ fields.map (·.1) := by
  have general (fields acc : List (κ × β)) : n ∈ (fields.foldl (fun entries f => put entries f.1 f.2) acc).map (·.1) ↔
      n ∈ acc.map (·.1) ∨ n ∈ fields.map (·.1) := by
    induction fields generalizing acc
    case nil          => simp
    case cons f rest hi => rw [List.foldl_cons, hi, mem_put_names, List.map_cons, List.mem_cons, or_assoc]
  exact (general fields []).trans (or_iff_right List.not_mem_nil)

theorem ofFields_of_nodup (distinct : (fields.map (·.1)).Nodup) : ofFields fields = fields := by
  have general (fields acc : List (κ × β)) (h : ((acc ++ fields).map (·.1)).Nodup) :
      fields.foldl (fun entries f => put entries f.1 f.2) acc = acc ++ fields := by
    induction fields generalizing acc
    case nil => simp
    case cons f rest hi =>
      have hf : f.1 ∉ acc.map (·.1) := by
        simp only [List.map_append, List.map_cons, List.nodup_append', List.disjoint_cons_right] at h
        exact h.2.2.1
      rw [List.foldl_cons, put_of_not_mem hf, hi _ (by simpa using h), List.append_assoc, List.singleton_append]
  exact general fields [] distinct

theorem get?_map {α β κ : Type} [BEq κ] [LawfulBEq κ] {xs : List α} {key : α → κ} (distinct : (xs.map key).Nodup)
    (f : α → β) {x : α} (hx : x ∈ xs) : get? (xs.map fun x => (key x, f x)) (key x) = some (f x) := by
  induction xs
  case nil => cases hx
  case cons y ys hi =>
    have ⟨hy, distinct⟩ := List.nodup_cons.mp distinct
    rw [List.map_cons, get?, List.find?_cons]
    cases hx
    case head    => simp
    case tail hx =>
      have hk : (key y == key x) = false := beq_eq_false_iff_ne.mpr fun he => hy <| he ▸ List.mem_map_of_mem hx
      rw [hk]
      exact hi distinct hx

theorem get?_eq_none (h : name ∉ entries.map (·.1)) : get? entries name = none := by
  rw [get?, List.find?_eq_none.mpr, Option.map_none]
  intro entry hm
  simp only [beq_iff_eq]
  rintro rfl
  exact h (List.mem_map_of_mem hm)

theorem get?_of_mem (distinct : (entries.map (·.1)).Nodup) {entry : κ × β} (h : entry ∈ entries) :
    get? entries entry.1 = some entry.2 := by
  have same : entries.map (fun e => (e.1, e.2)) = entries := List.map_id entries
  exact same ▸ get?_map distinct (·.2) h

theorem get?_eq_some (distinct : (entries.map (·.1)).Nodup) {value : β} :
    get? entries name = some value ↔ (name, value) ∈ entries := by
  constructor
  · intro h
    have ⟨entry, hf, he⟩ := Option.map_eq_some_iff.mp h
    have hn : entry.1 = name := by simpa using List.find?_some hf
    exact hn ▸ he ▸ List.mem_of_find?_eq_some hf
  · exact get?_of_mem distinct

-- Among fields of one name the last has the value.
theorem get?_ofFields (fields : List (κ × β)) (name : κ) :
    get? (ofFields fields) name = ((fields.filter (·.1 == name)).map (·.2)).getLast? := by
  have general (fields acc : List (κ × β)) : get? (fields.foldl (fun entries f => put entries f.1 f.2) acc) name =
      ((fields.filter (·.1 == name)).map (·.2)).getLast?.or (get? acc name) := by
    induction fields generalizing acc
    case nil => rfl
    case cons f rest hi =>
      rw [List.foldl_cons, hi, get?_put, List.filter_cons]
      cases hn : f.1 == name
      case true  => simp [List.getLast?_cons, Option.or_some]
      case false => simp
  exact (general fields []).trans Option.or_none

-- No name has two values.
def Consistent (fields : List (κ × β)) : Prop := ∀ f ∈ fields, ∀ g ∈ fields, f.1 = g.1 → f.2 = g.2

theorem mem_ofFields (consistent : Consistent fields) {f : κ × β} : f ∈ ofFields fields ↔ f ∈ fields := by
  refine ⟨mem_of_mem_ofFields, fun h => ?_⟩
  obtain ⟨g, hg, same⟩ := List.mem_map.mp <| mem_ofFields_names.mpr (List.mem_map_of_mem (f := (·.1)) h)
  have value := consistent g (mem_of_mem_ofFields hg) f h same
  rwa [← Prod.ext same value]

-- Without two values for a name the order of the fields does not matter.
theorem ofFields_perm {fields' : List (κ × β)} (perm : fields'.Perm fields) (consistent : Consistent fields) :
    (ofFields fields').Perm (ofFields fields) := by
  have consistent' : Consistent fields' := fun f hf g hg => consistent f (perm.mem_iff.mp hf) g (perm.mem_iff.mp hg)
  refine (List.perm_ext_iff_of_nodup (.of_map _ (ofFields_nodup _)) (.of_map _ (ofFields_nodup _))).mpr fun f => ?_
  rw [mem_ofFields consistent, mem_ofFields consistent', perm.mem_iff]

omit [BEq κ] [LawfulBEq κ] in
theorem consistent_of_nodup (distinct : (fields.map (·.1)).Nodup) : Consistent fields :=
  fun _ hf _ hg same => congrArg Prod.snd (List.inj_on_of_nodup_map distinct hf hg same)

theorem get?_perm {entries' : List (κ × β)} (perm : entries'.Perm entries) (distinct : (entries.map (·.1)).Nodup)
    (name : κ) : get? entries' name = get? entries name := by
  have distinct' : (entries'.map (·.1)).Nodup := (perm.map _).nodup_iff.mpr distinct
  refine Option.ext fun value => ?_
  rw [get?_eq_some distinct, get?_eq_some distinct', perm.mem_iff]

section Sums

variable {R : Type} [Semiring R] {keys xs : List κ}

theorem sum_indicator (keys : List κ) (x : κ) (f : κ → R) :
    (keys.map fun k => ((if x == k then 1 else 0 : Nat) : R) * f k).sum = keys.count x * f x := by
  induction keys
  case nil => simp
  case cons k keys hi =>
    rw [List.map_cons, List.sum_cons, hi, List.count_cons, BEq.comm]
    cases same : k == x
    case true  => rw [eq_of_beq same]; simp [add_mul, add_comm]
    case false => simp

-- A sum over what all has keys, taken key by key.
theorem sum_count_mul (distinct : keys.Nodup) (covered : ∀ x ∈ xs, x ∈ keys) (f : κ → R) :
    (keys.map fun k => xs.count k * f k).sum = (xs.map f).sum := by
  induction xs
  case nil => simp
  case cons x xs hi =>
    have ⟨here, covered⟩ := List.forall_mem_cons.mp covered
    simp only [List.count_cons, Nat.cast_add, add_mul, List.sum_map_add]
    rw [hi covered, sum_indicator, distinct.count, if_pos here, Nat.cast_one, one_mul, List.map_cons, List.sum_cons,
      add_comm]

end Sums

section Amounts

variable {names : List κ} {amounts : List (κ × Nat)}

-- An amount is added to what stands under a name.
def add (entries : List (κ × Nat)) (name : κ) (amount : Nat) : List (κ × Nat) :=
  put entries name ((get? entries name).getD 0 + amount)

-- All that there is for a name.
def amountOf (amounts : List (κ × Nat)) (name : κ) : Nat := ((amounts.filter (·.1 == name)).map (·.2)).sum

omit [LawfulBEq κ] in
theorem amountOf_append (amounts more : List (κ × Nat)) (name : κ) :
    amountOf (amounts ++ more) name = amountOf amounts name + amountOf more name := by
  rw [amountOf, List.filter_append, List.map_append, List.sum_append]
  rfl

omit [LawfulBEq κ] in
theorem amountOf_singleton (a : κ × Nat) (name : κ) : amountOf [a] name = if a.1 == name then a.2 else 0 := by
  rw [amountOf, List.filter_singleton]
  cases a.1 == name <;> rfl

omit [LawfulBEq κ] in
theorem amountOf_const (names : List κ) (amount : Nat) (name : κ) :
    amountOf (names.map fun n => (n, amount)) name = names.count name * amount := by
  induction names
  case nil => simp [amountOf]
  case cons n names hi =>
    rw [List.map_cons, ← List.singleton_append, amountOf_append, amountOf_singleton, hi, List.count_cons, Nat.add_mul,
      Nat.add_comm]
    cases n == name <;> simp

theorem amountOf_of_not_mem (h : name ∉ amounts.map (·.1)) : amountOf amounts name = 0 := by
  have none : ∀ a ∈ amounts, ¬(a.1 == name) = true := fun a ha same => h (eq_of_beq same ▸ List.mem_map_of_mem ha)
  rw [amountOf, List.filter_eq_nil_iff.mpr none, List.map_nil, List.sum_nil]

theorem eraseDups_concat [DecidableEq κ] (names : List κ) (name : κ) :
    (names ++ [name]).eraseDups = if name ∈ names then names.eraseDups else names.eraseDups ++ [name] := by
  rw [List.eraseDups_append]
  split
  case isTrue known => simp [List.removeAll, known]
  case isFalse new  => simp [List.removeAll, new, List.eraseDups_cons]

theorem nodup_eraseDups (names : List κ) : names.eraseDups.Nodup := by
  classical
  induction names using List.reverseRecOn
  case nil => simp
  case append_singleton names name hi =>
    rw [eraseDups_concat]
    split
    case isTrue       => exact hi
    case isFalse new  =>
      rw [List.nodup_append']
      exact ⟨hi, List.nodup_singleton _, by simpa using new⟩

-- A known name takes its new value where it is.
theorem put_map {f : κ → β} (distinct : names.Nodup) (known : name ∈ names) (value : β) :
    put (names.map fun n => (n, f n)) name value = names.map fun n => (n, if name == n then value else f n) := by
  induction names
  case nil => cases known
  case cons m names hi =>
    have ⟨fresh, distinct⟩ := List.nodup_cons.mp distinct
    rw [List.map_cons, List.map_cons, put]
    by_cases he : m = name
    case pos =>
      subst he
      have others : (names.map fun n => (n, if m == n then value else f n)) = names.map fun n => (n, f n) :=
        List.map_congr_left fun n hn => by rw [beq_false_of_ne (ne_of_mem_of_not_mem hn fresh).symm]; rfl
      simp [others]
    case neg =>
      have known := (List.mem_cons.mp known).resolve_left (Ne.symm he)
      simp [he, Ne.symm he, hi distinct known]

-- The names come in the order of their first occurrence, each with all that there is for it.
theorem foldl_add (amounts : List (κ × Nat)) : amounts.foldl (fun entries a => add entries a.1 a.2) [] =
    (amounts.map (·.1)).eraseDups.map fun n => (n, amountOf amounts n) := by
  classical
  induction amounts using List.reverseRecOn
  case nil => simp
  case append_singleton amounts a hi =>
    have total (n : κ) : amountOf (amounts ++ [a]) n = amountOf amounts n + if a.1 == n then a.2 else 0 := by
      rw [amountOf_append, amountOf_singleton]
    rw [List.foldl_append, hi, List.map_append, List.map_singleton, eraseDups_concat, List.foldl_cons, List.foldl_nil, add]
    split
    case isTrue known =>
      have here : a.1 ∈ (amounts.map (·.1)).eraseDups := List.mem_eraseDups.mpr known
      have distinct := nodup_eraseDups (amounts.map (·.1))
      have own : ((amounts.map (·.1)).eraseDups.map id).Nodup := by rwa [List.map_id]
      have found := get?_map own (amountOf amounts) here
      simp only [id] at found
      rw [found, Option.getD_some, put_map distinct here]
      refine List.map_congr_left fun n _ => ?_
      rw [total]
      cases hn : a.1 == n
      case true  => rw [eq_of_beq hn]; rfl
      case false => rfl
    case isFalse new =>
      have absent : a.1 ∉ ((amounts.map (·.1)).eraseDups.map fun n => (n, amountOf amounts n)).map (·.1) := by
        simpa using new
      rw [put_of_not_mem absent, get?_eq_none absent, List.map_append, List.map_singleton, total, amountOf_of_not_mem new,
        beq_self_eq_true]
      refine congrArg (· ++ _) (List.map_congr_left fun n hn => ?_)
      have other : (a.1 == n) = false := beq_false_of_ne fun same => new (List.mem_eraseDups.mp (same ▸ hn))
      rw [total, other]
      rfl

end Amounts

theorem mem_repeated {names : List String} {n : String} : n ∈ repeated names ↔ 2 ≤ names.count n := by
  have general (note : List String × List String → String → List String × List String)
      (noted : ∀ seen again m, note (seen, again) m = if m ∈ seen then (seen, m :: again) else (m :: seen, again))
      (names seen again : List String) :
      n ∈ (names.foldl note (seen, again)).2 ↔ n ∈ again ∨ (if n ∈ seen then 1 else 2) ≤ names.count n := by
    induction names generalizing seen again
    case nil => split <;> simp
    case cons m names hi =>
      rw [List.foldl_cons, noted]
      by_cases hm : m ∈ seen
      case pos =>
        simp only [hm, if_true, hi, List.mem_cons, List.count_cons]
        by_cases he : n = m
        case pos => simp [he, hm]
        case neg => simp [he, Ne.symm he]
      case neg =>
        simp only [hm, if_false, hi, List.mem_cons, List.count_cons]
        by_cases he : n = m
        case pos => simp [he, hm]
        case neg => simp [he, Ne.symm he]
  rw [repeated, List.mem_reverse, general _ fun seen again m => by simp]
  simp

theorem repeated_eq_nil {names : List String} : repeated names = [] ↔ names.Nodup := by
  rw [List.eq_nil_iff_forall_not_mem, List.nodup_iff_count_le_one]
  refine forall_congr' fun n => ?_
  rw [mem_repeated]
  omega

theorem repeated_of_nodup {names : List String} (distinct : names.Nodup) : repeated names = [] :=
  repeated_eq_nil.mpr distinct

end Assoc

end BoltzmannSampling
