import Mathlib
import BoltzmannSampling.Proofs.Derivation.Auxiliary
import BoltzmannSampling.Proofs.Specification.Acceptance

/-!
What modifiers become. The types of modifiers are told apart by their names, which hold the texts of the elements, so
one type serves every use of a modifier over elements of one text, and it is the type of the first of them. Texts tell
atoms from atoms and types from types. A type that is named like an atom shares the text of that atom, and there alone
a use is served by the type of another element.
-/

namespace BoltzmannSampling

namespace Atom

theorem toList_text (a : Atom) :
    a.text.toList = '@' :: if a.size = 1 then [] else Nat.toDigits 10 a.size := by
  rw [text]
  split
  case isTrue  => rfl
  case isFalse =>
    have digits : (toString a.size).toList = Nat.toDigits 10 a.size := Nat.toList_repr
    rw [String.toList_append, digits]
    rfl

theorem text_inj {a b : Atom} : a.text = b.text ↔ a = b := by
  constructor
  case mpr => exact congrArg text
  case mp  =>
    intro h
    have sizes : a.size = b.size := by
      have := congrArg String.toList h
      rw [toList_text, toList_text, List.cons.injEq] at this
      have := this.2
      split at this <;> split at this
      case isTrue.isTrue ha hb   => exact ha.trans hb.symm
      case isTrue.isFalse        => exact (Nat.toDigits_ne_nil this.symm).elim
      case isFalse.isTrue        => exact (Nat.toDigits_ne_nil this).elim
      case isFalse.isFalse       => simpa [Nat.ofDigitChars_ten_toDigits] using congrArg (Nat.ofDigitChars 10 · 0) this
    cases a
    cases b
    cases sizes
    rfl

end Atom

namespace Element

-- An atom and a type that is named like it.
inductive Namesakes : Element → Element → Prop
  | atom (a : Atom) : Namesakes (.atom a) (.ref a.text)
  | type (a : Atom) : Namesakes (.ref a.text) (.atom a)

theorem text_eq_iff {e e' : Element} : e.text = e'.text ↔ e = e' ∨ e.Namesakes e' := by
  constructor
  case mpr =>
    rintro (rfl | h)
    · rfl
    · cases h <;> rfl
  case mp =>
    intro h
    cases e <;> cases e' <;> simp only [text] at h
    case ref.ref   => exact .inl (congrArg ref h)
    case ref.atom  => exact .inr (h ▸ .type _)
    case atom.ref  => exact .inr (h ▸ .atom _)
    case atom.atom => exact .inl (congrArg atom <| Atom.text_inj.mp h)

end Element

theorem TypeDef.auxiliaryName_inj {m m' : Modifier} {e e' : Element} :
    auxiliaryName m e = auxiliaryName m' e' ↔ m = m' ∧ e.text = e'.text := by
  rw [← String.toList_inj, ← String.toList_inj]
  cases m <;> cases m' <;> simp [auxiliaryName, Modifier.word, String.toList_append]

namespace Derivation

variable {m : Modifier} {e : Element}

-- The derivation of a list of elements, each of them with its derivation unless it is an atom.
def listed (m : Modifier) (e : Element) : List (List Derivation) → Derivation
  | []      => nil m e
  | x :: xs => cons m e x (listed m e xs)

theorem size_listed (xs : List (List Derivation)) :
    (listed m e xs).size = (xs.map fun x => e.atomSize + (x.map size).sum).sum := by
  induction xs
  case nil          => exact size_nil m e
  case cons x xs hi => rw [listed, size_cons, hi, List.map_cons, List.sum_cons, Nat.add_assoc]

theorem listed_injective : Function.Injective (listed m e) := by
  intro xs ys h
  induction xs generalizing ys
  case nil =>
    cases ys
    case nil  => rfl
    case cons => simp [listed, nil, cons] at h
  case cons x xs hi =>
    cases ys
    case nil       => simp [listed, nil, cons] at h
    case cons y ys =>
      have parts : x ++ [listed m e xs] = y ++ [listed m e ys] := by simpa [listed, cons] using h
      obtain ⟨hx, hs⟩ := List.append_inj' parts rfl
      rw [hx, hi (List.singleton_injective hs)]

end Derivation

-- The uses of modifiers in some declarations, in order.
def Declaration.modifiers (ds : List Declaration) : List (Modifier × Element) :=
  ds.flatMap fun d => d.proper.flatMap fun c => c.args.filterMap fun
    | .plain _  => none
    | .many m e => some (m, e)

namespace Specification

open TypeDef (auxiliaryName)

variable {s : Specification} {ds : List Declaration} {annotations : List (String × Json)} {ts : List TypeDef}
  {m : Modifier} {e : Element}

theorem auxiliaries_eq (ds : List Declaration) :
    auxiliaries ds = firstOfEachName ((Declaration.modifiers ds).map fun u => .auxiliary u.1 u.2) := by
  have use (a : Arg) : a.auxiliary? = Option.map (fun u : Modifier × Element => TypeDef.auxiliary u.1 u.2) (match a with
    | .plain _  => none
    | .many m e => some (m, e)) := by cases a <;> rfl
  simp only [auxiliaries, Declaration.modifiers, List.map_flatMap, List.map_filterMap, ← use]

theorem find?_firstOfEachName {name : String} :
    (firstOfEachName ts).find? (·.name == name) = ts.find? (·.name == name) := by
  induction ts
  case nil => rfl
  case cons t ts hi =>
    rw [firstOfEachName, List.find?_cons, List.find?_cons]
    split
    case h_1 => rfl
    case h_2 hn =>
      -- The types left out are of another name.
      have others (u : TypeDef) : decide (u.name != t.name ∧ u.name == name) = (u.name == name) := by
        rw [Bool.eq_iff_iff, decide_eq_true_iff, and_iff_right_iff_imp]
        intro hu
        have ne : t.name ≠ name := by simpa using hn
        simpa [beq_iff_eq.mp hu] using ne.symm
      simp only [List.find?_filter, others, hi]

-- The type under the name of a use is that of the first use with the name.
theorem type?_modifier (accepted : Acceptable ds annotations) (use : (m, e) ∈ Declaration.modifiers ds) :
    ∃ e', (m, e') ∈ Declaration.modifiers ds ∧ (e' = e ∨ e'.Namesakes e) ∧
      (ofTable ds annotations).type? (auxiliaryName m e) = some (.auxiliary m e') := by
  have found : (((Declaration.modifiers ds).map fun u => TypeDef.auxiliary u.1 u.2).find?
      (·.name == auxiliaryName m e)).isSome := by
    rw [List.find?_isSome]
    exact ⟨_, List.mem_map_of_mem use, beq_self_eq_true _⟩
  have ⟨t, ht⟩ := Option.isSome_iff_exists.mp found
  obtain ⟨⟨m', e'⟩, use', rfl⟩ := List.mem_map.mp (List.mem_of_find?_eq_some ht)
  have hn := List.find?_some ht
  have named : auxiliaryName m' e' = auxiliaryName m e := beq_iff_eq.mp hn
  obtain ⟨rfl, same⟩ := TypeDef.auxiliaryName_inj.mp named
  have listed : (auxiliaries ds).find? (·.name == auxiliaryName m' e) = some (.auxiliary m' e') := by
    rw [auxiliaries_eq, find?_firstOfEachName, ht]
  have undeclared : (ds.map declaredType).find? (·.name == auxiliaryName m' e) = none := by
    apply List.find?_eq_none.mpr
    intro u hu hn
    have ⟨d, hd, hu⟩ := List.mem_map.mp hu
    have name : d.name = auxiliaryName m' e' := by
      rw [← hu] at hn
      exact (beq_iff_eq.mp hn).trans named.symm
    exact accepted.fresh _ (List.mem_of_find?_eq_some listed) (List.mem_map.mpr ⟨d, hd, name⟩)
  refine ⟨e', use', Element.text_eq_iff.mp same, ?_⟩
  rw [type?, ofTable, table, List.find?_append, undeclared, Option.none_or, listed]

-- The derivations of the type of a modifier are the lists of elements.
theorem listed_bijOn (resolved : s.Resolved) (haux : .auxiliary m e ∈ s.types) :
    Set.BijOn (Derivation.listed m e) { xs | ∀ x ∈ xs, s.Forest e.type?.toList x } (s.derivations (auxiliaryName m e)) := by
  refine ⟨?maps, Derivation.listed_injective.injOn, ?onto⟩
  case maps =>
    intro xs h
    induction xs
    case nil          => exact nil_mem haux
    case cons x xs hi =>
      obtain ⟨hx, hs⟩ := List.forall_mem_cons.mp h
      exact cons_mem haux hx (hi hs)
  case onto =>
    intro d hd
    induction d using Derivation.induction
    case node t c parts hi =>
      cases auxiliary_cases resolved haux hd
      case inl he => exact ⟨[], by simp, he.symm⟩
      case inr h  =>
        obtain ⟨x, rest, hx, hr, he⟩ := h
        have below : rest ∈ parts := by
          simp only [Derivation.cons, Derivation.node.injEq] at he
          simp [he]
        obtain ⟨xs, hs, hl⟩ := hi rest below hr
        exact ⟨x :: xs, List.forall_mem_cons.mpr ⟨hx, hs⟩, by rw [he, Derivation.listed, hl]⟩

-- A use of a modifier stands for the lists of its element, or of a namesake of the element that was used before it. The
-- latter is so for some use exactly if a modifier is over an atom here and over a type named like the atom there.
theorem modifiers_served {entries : List (Except Json Declaration)} (h : ofDeclarations entries annotations = .ok s) :
    ∃ ds, entries = ds.map .ok ∧
      (∀ m e, (m, e) ∈ Declaration.modifiers ds → ∃ e', (m, e') ∈ Declaration.modifiers ds ∧ (e' = e ∨ e'.Namesakes e) ∧
        s.type? (auxiliaryName m e) = some (.auxiliary m e') ∧
        Set.BijOn (Derivation.listed m e') { xs | ∀ x ∈ xs, s.Forest e'.type?.toList x }
          (s.derivations (auxiliaryName m e))) ∧
      ((∀ m e, (m, e) ∈ Declaration.modifiers ds → s.type? (auxiliaryName m e) = some (.auxiliary m e)) ↔
        ∀ m a, (m, .atom a) ∈ Declaration.modifiers ds → (m, .ref a.text) ∉ Declaration.modifiers ds) := by
  have checked : s.Resolved := resolved h
  obtain ⟨ds, rfl, accepted, rfl⟩ := ofDeclarations_eq_ok.mp h
  refine ⟨ds, rfl, fun m e use => ?served, ?_, ?_⟩
  case served =>
    have ⟨e', use', same, found⟩ := type?_modifier accepted use
    have name : auxiliaryName m e = auxiliaryName m e' :=
      TypeDef.auxiliaryName_inj.mpr ⟨rfl, (Element.text_eq_iff.mpr same).symm⟩
    exact ⟨e', use', same, found, name ▸ listed_bijOn checked (List.mem_of_find?_eq_some found)⟩
  · intro faithful m a atom type
    have := (faithful m (.atom a) atom).symm.trans (faithful m (.ref a.text) type)
    simp [TypeDef.auxiliary] at this
  · intro apart m e use
    have ⟨e', use', same, found⟩ := type?_modifier accepted use
    rcases same with rfl | namesakes
    · exact found
    · cases namesakes
      case atom a => exact (apart m a use' use).elim
      case type a => exact (apart m a use use').elim

-- Lists of atoms of size two, and lists of a type named like such an atom: the first use serves both.
example :
    let pair : Atom := ⟨2, by decide⟩
    let both : Constructor Arg := ⟨"Both", [.many .sequence (.atom pair), .many .sequence (.ref "@2")], 1, isWeight_one⟩
    let stop : Constructor Arg := ⟨"Stop", [.plain .epsilon], 1, isWeight_one⟩
    (ofDeclarations [.ok ⟨"A", [.ok both], .text "plain", none, 0⟩, .ok ⟨"@2", [.ok stop], .text "plain", none, 0⟩]
      []).toOption.bind (·.type? "Seq(@2)") = some (.auxiliary .sequence (.atom pair)) := rfl

end Specification

end BoltzmannSampling
