import Mathlib
import BoltzmannSampling.Proofs.Assoc
import BoltzmannSampling.Proofs.Checks
import BoltzmannSampling.Proofs.Number.Integers
import BoltzmannSampling.Proofs.Specification.Resolved
import BoltzmannSampling.Tuning.Solver

/-!
The tuning problem of a system, for a solver elsewhere. It has a row for each constructor of the table, in order, with
its type, its weight, the types that it refers to and how often. But the row has the size in the precision of doubles,
so that the equations that are read back from a problem are those of the system with rounded sizes. They are its own if
every size is a double, as all of 53 bits are.
-/

namespace BoltzmannSampling

variable {names : List String} {c : Constructor Symbol}

namespace Json

def float? : Json → Option Float
  | .number (.float x) => some x
  | _                  => none

def natural? : Json → Option Nat
  | .number (.int i) => some i.toNat
  | _                => none

end Json

namespace Term

-- The row of a constructor: the exponents are those of the types that it refers to.
def row (names : List String) (typeName : String) (c : Constructor Symbol) : Json :=
  .object [("name", .text c.name), ("type", .text typeName), ("weight", .float c.weight),
    ("size", .nat (Binary64.roundNat c.size)),
    ("exponents", .object ((names.filter (· ∈ c.refs)).map fun n => (n, .nat (c.refs.count n))))]

-- The exponent of a type in a row, which is zero where the row does not name it.
def exponent? (fields : List (String × Json)) (name : String) : Option Nat :=
  (Assoc.get? fields name).elim (some 0) Json.natural?

-- The term that a row says.
def ofRow? (names : List String) (row : Json) : Option Term := do
  let constructor ← (row.get? "name").bind Json.text?
  let typeName ← (row.get? "type").bind Json.text?
  let weight ← (row.get? "weight").bind Json.float?
  let size ← (row.get? "size").bind Json.natural?
  let fields ← (row.get? "exponents").bind Json.entries?
  let exponents ← names.mapM (exponent? fields)
  return ⟨constructor, typeName, names.idxOf typeName, weight, size, exponents⟩

def rounded (t : Term) : Term := { t with size := Binary64.roundNat t.size }

theorem termToJson_ofConstructor (e : Equations) (i : Nat) (T : String) (c : Constructor Symbol) :
    e.termToJson (ofConstructor e.names i T c) = row e.names T c := by
  have occurring (names : List String) : (names.zip (names.map fun n => c.refs.count n)).filter (·.2 != 0) =
      (names.filter (· ∈ c.refs)).map fun n => (n, c.refs.count n) := by
    induction names
    case nil => rfl
    case cons n names hi =>
      have counts : (c.refs.count n != 0) = decide (n ∈ c.refs) := by grind [List.count_eq_zero]
      rw [List.map_cons, List.zip_cons_cons, List.filter_cons, List.filter_cons, hi, counts]
      split <;> rfl
  simp only [Equations.termToJson, ofConstructor, occurring, List.map_map, row]
  rfl

theorem exponent?_row (distinct : names.Nodup) {n : String} (hn : n ∈ names) :
    exponent? ((names.filter (· ∈ c.refs)).map fun n => (n, .nat (c.refs.count n))) n = some (c.refs.count n) := by
  rw [exponent?]
  by_cases hr : n ∈ c.refs
  case pos =>
    have here : n ∈ names.filter (· ∈ c.refs) := List.mem_filter.mpr ⟨hn, decide_eq_true hr⟩
    have distinct : ((names.filter (· ∈ c.refs)).map id).Nodup := by simpa using distinct.filter _
    have found := Assoc.get?_map distinct (fun n => Json.nat (c.refs.count n)) here
    simp only [id] at found
    rw [found]
    rfl
  case neg =>
    have absent : n ∉ ((names.filter (· ∈ c.refs)).map fun n => (n, Json.nat (c.refs.count n))).map (·.1) := by
      simp [hr]
    rw [Assoc.get?_eq_none absent, List.count_eq_zero.mpr hr]
    rfl

-- A row says the term of its constructor, but for the size.
theorem ofRow?_row (distinct : names.Nodup) (T : String) :
    ofRow? names (row names T c) = some (ofConstructor names (names.idxOf T) T c).rounded := by
  have entries : ((row names T c).get? "exponents").bind Json.entries? =
      some ((names.filter (· ∈ c.refs)).map fun n => (n, .nat (c.refs.count n))) := by
    have distinct : (((names.filter (· ∈ c.refs)).map fun n => (n, Json.nat (c.refs.count n))).map (·.1)).Nodup := by
      rw [List.map_map]
      simpa [Function.comp_def] using distinct.filter (fun n => decide (n ∈ c.refs))
    exact congrArg some (Assoc.ofFields_of_nodup distinct)
  have exponents : names.mapM (exponent? ((names.filter (· ∈ c.refs)).map fun n => (n, .nat (c.refs.count n)))) =
      some (names.map fun n => c.refs.count n) :=
    Checks.mapM_eq_some.mpr <| List.forall₂_map_right_iff.mpr <| List.forall₂_same.mpr fun n hn => exponent?_row distinct hn
  have name : ((row names T c).get? "name").bind Json.text? = some c.name := rfl
  have type : ((row names T c).get? "type").bind Json.text? = some T := rfl
  have weight : ((row names T c).get? "weight").bind Json.float? = some c.weight := rfl
  have size : ((row names T c).get? "size").bind Json.natural? = some (Binary64.roundNat c.size) := rfl
  simp only [ofRow?, name, type, weight, size, entries, exponents, Option.bind_eq_bind, Option.bind_some]
  rfl

end Term

namespace Equations

variable {s : Specification} {types : List TypeDef}

-- The equations that a problem says, read by a solver elsewhere.
def ofProblem? (doc : Json) : Option Equations := do
  let names ← (← (doc.get? "types").bind Json.array?).mapM Json.text?
  let terms ← (← (doc.get? "constructors").bind Json.array?).mapM (Term.ofRow? names)
  return ⟨names, terms⟩

-- The equations with the sizes that rows have.
def rounded (e : Equations) : Equations := { e with terms := e.terms.map Term.rounded }

-- A term for each constructor of the table, in the equation of its type.
theorem terms_ofSystem (distinct : s.names.Nodup) : (ofSystem s).terms =
    s.productions.map fun (t, c) => Term.ofConstructor s.names (s.names.idxOf t.name) t.name c := by
  have general (before after : List TypeDef) (h : before ++ after = s.types) : termsFrom s.names before.length after =
      after.flatMap fun t => t.constructors.map (Term.ofConstructor s.names (s.names.idxOf t.name) t.name) := by
    induction after generalizing before
    case nil => rfl
    case cons t after hi =>
      have place : s.names.idxOf t.name = before.length := by
        have names : s.names = before.map TypeDef.name ++ t.name :: after.map TypeDef.name := by simp [Specification.names, ← h]
        have new : t.name ∉ before.map TypeDef.name := by
          rw [names, List.nodup_append'] at distinct
          exact fun h => distinct.2.2 h List.mem_cons_self
        rw [names, List.idxOf_append_of_notMem new, List.idxOf_cons_self, List.length_map, Nat.add_zero]
      have rest := hi (before ++ [t]) (by rw [← h, List.append_assoc, List.singleton_append])
      rw [List.length_append, List.length_singleton] at rest
      rw [termsFrom, rest, List.flatMap_cons, place]
  simpa [ofSystem, Specification.productions, List.map_flatMap, List.map_map, Function.comp_def] using general [] s.types rfl

theorem rows_toJson (s : Specification) : (ofSystem s).terms.map (ofSystem s).termToJson =
    s.productions.map fun (t, c) => Term.row s.names t.name c := by
  have general (i : Nat) (types : List TypeDef) : (termsFrom s.names i types).map (ofSystem s).termToJson =
      types.flatMap fun t => t.constructors.map (Term.row s.names t.name) := by
    induction types generalizing i
    case nil => rfl
    case cons t types hi =>
      rw [termsFrom, List.map_append, hi, List.flatMap_cons, List.map_map]
      exact congrArg (· ++ _) <| List.map_congr_left fun c _ => Term.termToJson_ofConstructor (ofSystem s) i t.name c
  change (termsFrom s.names 0 s.types).map _ = _
  rw [general, Specification.productions, List.map_flatMap]
  simp only [List.map_map, Function.comp_def]

-- A problem says the equations of the system, but for sizes that are no doubles.
theorem ofProblem?_toJson (distinct : s.names.Nodup) {doc : Json}
    (types : doc.get? "types" = some (.array (s.names.map .text)))
    (rows : doc.get? "constructors" = some (.array (s.productions.map fun (t, c) => Term.row s.names t.name c))) :
    ofProblem? doc = some (ofSystem s).rounded := by
  have names : (s.names.map Json.text).mapM Json.text? = some s.names :=
    Checks.mapM_eq_some.mpr <| List.forall₂_map_left_iff.mpr <| List.forall₂_same.mpr fun _ _ => rfl
  have terms : (s.productions.map fun (t, c) => Term.row s.names t.name c).mapM (Term.ofRow? s.names) =
      some ((ofSystem s).terms.map Term.rounded) := by
    rw [terms_ofSystem distinct, List.map_map]
    exact Checks.mapM_eq_some.mpr <| List.forall₂_map_left_iff.mpr <| List.forall₂_map_right_iff.mpr <|
      List.forall₂_same.mpr fun (t, c) _ => Term.ofRow?_row distinct t.name
  simp only [ofProblem?, types, rows, Json.array?, names, terms, Option.bind_eq_bind, Option.bind_some]
  rfl

theorem rounded_eq_self (distinct : s.names.Nodup) : (ofSystem s).rounded = ofSystem s ↔
    ∀ t ∈ s.types, ∀ c ∈ t.constructors, Binary64.roundNat c.size = c.size := by
  have terms : (ofSystem s).rounded = ofSystem s ↔ (ofSystem s).terms.map Term.rounded = (ofSystem s).terms.map id := by
    rw [List.map_id]
    exact ⟨congrArg Equations.terms, congrArg (Equations.mk s.names)⟩
  have kept (i : Nat) (T : String) (c : Constructor Symbol) : (Term.ofConstructor s.names i T c).rounded =
      Term.ofConstructor s.names i T c ↔ Binary64.roundNat c.size = c.size := by
    simp [Term.rounded, Term.ofConstructor]
  rw [terms, List.map_inj_left, terms_ofSystem distinct, List.forall_mem_map]
  constructor
  · intro h t ht c hc
    exact (kept _ t.name c).mp (h (t, c) (Specification.mem_productions.mpr ⟨ht, hc⟩))
  · rintro h ⟨t, c⟩ hm
    obtain ⟨ht, hc⟩ := Specification.mem_productions.mp hm
    exact (kept _ t.name c).mpr (h t ht c hc)

end Equations

namespace Tuned

variable {checked : Checked} {settings : TuningSettings} {doc : Json}

theorem problem_eq_ok : problem checked settings = .ok doc ↔
    (∀ t ∈ checked.system.types, ∀ c ∈ t.constructors, (Binary64.ofInt? c.size).isSome) ∧
      doc = .object ([("type", .text checked.classification.text), ("precision", .number settings.precision),
        ("maxiter", .int settings.maxiter)] ++ (Equations.ofSystem checked.system).fields) := by
  have sizes : checked.system.productions.all (fun (_, c) => (Binary64.ofInt? c.size).isSome) = true ↔
      ∀ t ∈ checked.system.types, ∀ c ∈ t.constructors, (Binary64.ofInt? c.size).isSome := by
    simp [Specification.productions]
  rw [problem, Checks.bind_eq_ok, Equations.inDoubles]
  split
  case isTrue within =>
    constructor
    · rintro ⟨_, equations, h⟩
      cases equations
      cases h
      exact ⟨sizes.mp within, rfl⟩
    · rintro ⟨-, rfl⟩
      exact ⟨_, rfl, rfl⟩
  case isFalse beyond => exact iff_of_false (by simp) fun h => beyond (sizes.mpr h.1)

-- What a problem has: the types of the table, and a row for each constructor. It says the equations of the system
-- with rounded sizes, which are those of the system exactly if all sizes are doubles.
theorem problem_rows (resolved : checked.system.Resolved) (h : problem checked settings = .ok doc) :
    doc.get? "types" = some (.array (checked.system.names.map .text)) ∧
      doc.get? "constructors" =
        some (.array (checked.system.productions.map fun (t, c) => Term.row checked.system.names t.name c)) ∧
      Equations.ofProblem? doc = some (Equations.ofSystem checked.system).rounded ∧
      (Equations.ofProblem? doc = some (Equations.ofSystem checked.system) ↔
        ∀ t ∈ checked.system.types, ∀ c ∈ t.constructors, Binary64.roundNat c.size = c.size) := by
  have rows := Equations.rows_toJson checked.system
  obtain ⟨types, constructors⟩ : doc.get? "types" = some (.array (checked.system.names.map .text)) ∧
      doc.get? "constructors" =
        some (.array (checked.system.productions.map fun (t, c) => Term.row checked.system.names t.name c)) := by
    obtain ⟨-, rfl⟩ := problem_eq_ok.mp h
    exact ⟨rfl, congrArg (some ∘ Json.array) rows⟩
  have said := Equations.ofProblem?_toJson resolved.names types constructors
  refine ⟨types, constructors, said, ?own⟩
  case own => rw [said, Option.some.injEq, Equations.rounded_eq_self resolved.names]

-- Sizes of 53 bits are kept, so that the problem is the system itself.
theorem problem_of_lt (resolved : checked.system.Resolved) (h : problem checked settings = .ok doc)
    (short : ∀ t ∈ checked.system.types, ∀ c ∈ t.constructors, c.size < 2 ^ 53) :
    Equations.ofProblem? doc = some (Equations.ofSystem checked.system) :=
  (problem_rows resolved h).2.2.2.mpr fun t ht c hc => Binary64.roundNat_of_lt (short t ht c hc)

-- A leaf of one atom more than the greatest size of 53 bits has the row of a smaller one.
example : Term.row ["T"] "T" ⟨"Leaf", [.atom ⟨2 ^ 53 + 1, by decide⟩], 1, isWeight_one⟩ =
    Term.row ["T"] "T" ⟨"Leaf", [.atom ⟨2 ^ 53, by decide⟩], 1, isWeight_one⟩ := by
  rfl

end Tuned

end BoltzmannSampling
