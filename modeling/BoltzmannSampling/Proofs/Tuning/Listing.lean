import Mathlib
import BoltzmannSampling.Proofs.Specification.Document
import BoltzmannSampling.Proofs.Tuning.Documents

/-!
The types that a tuned system lists. Its document has an entry for each type of the table, in order, with the
probabilities of the constructors. Declared types have the arguments of their constructors, modifiers included. The
entry of an auxiliary type has a kind and an element, but no size of an atom: it names the modifier of the type unless
the element is an atom of another size than one, and sequences of atoms of different sizes have the same kind and
element.
-/

namespace BoltzmannSampling

namespace Element

-- An element as the entry of an auxiliary type has it.
def shown : Element → Element
  | ref t  => .ref t
  | atom _ => .atom .unit

theorem shown_eq_self {e : Element} : e.shown = e ↔ ∀ a, e = .atom a → a = .unit := by
  cases e <;> simp [shown, eq_comm]

theorem shown_eq_shown {e e' : Element} : e.shown = e'.shown ↔ e = e' ∨ ∃ a b, e = .atom a ∧ e' = .atom b := by
  cases e <;> cases e' <;> simp [shown]

theorem ofJson_shown {e : Element} (h : e.symbol.Written) :
    Arg.ofJson (.text (e.type?.getD "@")) = .ok (.plain e.shown.symbol) := by
  cases e
  case ref t  => exact Symbol.ofJson_toJson (x := .ref t) h
  case atom a => simp [Arg.ofJson, type?, shown, symbol]

end Element

theorem Modifier.kind_inj {m m' : Modifier} : m.kind = m'.kind ↔ m = m' := by
  cases m <;> cases m' <;> decide

namespace Specification

variable {s : Specification} {m m' : Modifier} {e e' : Element} {t t' : TypeDef} {c : Constructor Symbol}
variable {ps ps' : List Float} {entry entry' : Json} {a : Arg}

theorem Documented.written_auxiliary (hd : s.Documented) (hr : s.Resolved) (h : .auxiliary m e ∈ s.types) :
    e.symbol.Written := by
  obtain ⟨t, ht, c, hc, hx⟩ := hd.used m e h
  have written := (hd.constructors t ht c hc).2 _ hx
  rwa [hr.surface_auxiliary h] at written

-- The arguments in the document of a constructor are those of the table, once modifiers have become references.
def HasArgs (doc : Json) (c : Constructor Symbol) : Prop :=
  ∃ parts args, partsOf doc "args" = .ok parts ∧ parts.mapM Arg.ofJson = .ok args ∧ args.map Arg.desugar = c.args

-- The entry of an auxiliary type is that of a modifier.
def Modifies (entry : Json) (a : Arg) : Prop :=
  ∃ m element operand, entry.get? "kind" = some (.text m.kind) ∧ entry.get? "element" = some element ∧
    Arg.ofJson element = .ok operand ∧ Arg.ofModifier m (.ok operand) = .ok a

theorem Modifies.unique {b : Arg} (h : Modifies entry a) (h' : Modifies entry b) : a = b := by
  obtain ⟨m, element, operand, kind, shown, read, ha⟩ := h
  obtain ⟨m', element', operand', kind', shown', read', hb⟩ := h'
  obtain rfl : m = m' := Modifier.kind_inj.mp <| by simpa using kind.symm.trans kind'
  obtain rfl : element = element' := by simpa using shown.symm.trans shown'
  obtain rfl : operand = operand' := by simpa using read.symm.trans read'
  simpa using ha.symm.trans hb

-- What the entry of a type has.
structure Lists (row : TypeDef × List Float) (entry : Json) : Prop where
  name          : entry.get? "name" = some (.text row.1.name)
  probabilities : ∃ docs, partsOf entry "constructors" = .ok docs ∧
    List.Forall₂ TuningData.IsEntry docs ((row.1.constructors.map (·.name)).zip row.2)
  args          : row.1.isAuxiliary = false →
    ∃ docs, partsOf entry "constructors" = .ok docs ∧ List.Forall₂ HasArgs docs row.1.constructors
  modifier      : ∀ m e, row.1.origin = .auxiliary m e → Modifies entry (.many m e.shown)

namespace Lists

theorem modifies_iff (h : Lists (t, ps) entry) (ht : t.origin = .auxiliary m e) :
    Modifies entry (.many m e) ↔ ∀ a, e = .atom a → a = .unit := by
  rw [← Element.shown_eq_self]
  constructor
  · intro own
    simpa using (h.modifier m e ht).unique own
  · intro same
    exact same ▸ h.modifier m e ht

-- Types whose entries have one kind and one element are sequences, or sets, over atoms if they are not the same.
theorem modifies_both (h : Lists (t, ps) entry) (h' : Lists (t', ps') entry') (ht : t.origin = .auxiliary m e)
    (ht' : t'.origin = .auxiliary m' e') (ha : Modifies entry a) (ha' : Modifies entry' a) :
    m = m' ∧ (e = e' ∨ ∃ a b, e = .atom a ∧ e' = .atom b) := by
  have first : .many m e.shown = a := (h.modifier m e ht).unique ha
  have second : .many m' e'.shown = a := (h'.modifier m' e' ht').unique ha'
  obtain ⟨hm, he⟩ : m = m' ∧ e.shown = e'.shown := by simpa using first.trans second.symm
  exact ⟨hm, Element.shown_eq_shown.mp he⟩

end Lists

end Specification

namespace Tuned

open Specification

variable {tuned : Tuned} {t : TypeDef} {ps : List Float} {c : Constructor Symbol}

theorem hasArgs_constructorJson (hr : tuned.system.Resolved) (hw : ∀ x ∈ c.args, (tuned.system.surface x).Written)
    (p : Float) : HasArgs (tuned.constructorJson c p) c := by
  refine ⟨_, c.args.map tuned.system.surface, rfl, mapM_surface hw, ?_⟩
  rw [List.map_map]
  exact (List.map_congr_left fun x _ => hr.desugar_surface x).trans <| List.map_id' _

theorem lists_typeJson (hr : tuned.system.Resolved) (hd : tuned.system.Documented) (h : (t, ps) ∈ tuned.rows) :
    Lists (t, ps) (tuned.typeJson t ps) := by
  have ht : t ∈ tuned.system.types := rows_types tuned ▸ List.mem_map_of_mem h
  refine ⟨get?_typeJson_name .., partsOf_typeJson .., fun declared => ?args, fun m e (ho : t.origin = _) => ?modifier⟩
  case args =>
    have user : t ∈ tuned.system.userTypes := List.mem_filter.mpr ⟨ht, by simpa using declared⟩
    have parts : partsOf (tuned.typeJson t ps) "constructors" =
        .ok (List.zipWith tuned.constructorJson t.constructors ps) := by
      simp only [typeJson, (hd.types t user).1]
      rfl
    refine ⟨_, parts, List.forall₂_iff_get.mpr ⟨by simp [length_of_mem_rows h], fun i hi hc => ?_⟩⟩
    simp only [List.get_eq_getElem, List.getElem_zipWith]
    exact hasArgs_constructorJson hr (hd.constructors t user _ (List.getElem_mem hc)).2 _
  case modifier =>
    have written := hd.written_auxiliary hr (hr.auxiliary t ht m e ho ▸ ht)
    have kind : (tuned.typeJson t ps).get? "kind" = some (.text m.kind) := by
      simp only [typeJson, ho]
      rfl
    have element : (tuned.typeJson t ps).get? "element" = some (.text (e.type?.getD "@")) := by
      simp only [typeJson, ho]
      rfl
    exact ⟨m, _, _, kind, element, Element.ofJson_shown written, Arg.ofModifier_eq_ok.mpr ⟨_, rfl, rfl⟩⟩

-- A system that comes from a document, tuned and written: an entry for each type of the table, in order.
theorem lists_toJson {doc : Json} (h : Specification.ofJson doc = .ok tuned.system) :
    ∃ entries, tuned.toJson.get? "types" = some (.array entries) ∧ List.Forall₂ Lists tuned.rows entries := by
  obtain ⟨hr, hd⟩ := documented h
  exact ⟨_, rfl, List.forall₂_map_right_iff.mpr <| List.forall₂_same.mpr fun _ hm => lists_typeJson hr hd hm⟩

-- Sequences of atoms of size two and of size three.
example (ps ps' : List Float) :
    let twos := tuned.typeJson (.auxiliary .sequence (.atom ⟨2, by decide⟩)) ps
    let threes := tuned.typeJson (.auxiliary .sequence (.atom ⟨3, by decide⟩)) ps'
    twos.get? "kind" = threes.get? "kind" ∧ twos.get? "element" = threes.get? "element" := by
  constructor <;> rfl

end Tuned

end BoltzmannSampling
