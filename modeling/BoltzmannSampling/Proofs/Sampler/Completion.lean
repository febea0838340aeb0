import Mathlib
import BoltzmannSampling.Proofs.Sampler.Validity

/-!
Attempts that come to an end. One does so exactly if its nodes under construction can be filled with derivations whose
turns the source of decisions follows, and then the atoms and the structure are those of the derivations.
-/

namespace BoltzmannSampling

-- A node under construction below others, with the types that its run and its arguments stand for.
structure Site where
  frame : Frame
  run   : List String
  refs  : List String

namespace Site

def Valid (tuned : Tuned) (order : DrawOrder) (p : Site) : Prop :=
  ∀ c, (p.frame.receive c).Valid tuned order p.run p.refs

end Site

-- What becomes of a finished node: it is handed to the node below it, which is filled in turn.
inductive Below (tuned : Tuned) (order : DrawOrder) : List Site → Structure → List Turn → Nat → Nat → Structure → Prop
  | root {w : Structure} : Below tuned order [] w [] 0 0 w
  | parent {p : Site} {others : List Site} {w w' : Structure} {x : Filling} {ts : List Turn} {n k : Nat}
      (fits : x.Fits tuned.system p.frame p.run p.refs)
      (rest : Below tuned order others (x.result (p.frame.receive w)) ts n k w') :
      Below tuned order (p :: others) w (x.turns tuned order p.frame.slots ++ ts) (x.size + n) (x.steps + k) w'

theorem Below.of_unmarked {tuned : Tuned} {order : DrawOrder} {others : List Site} {c w' : Structure} {ts : List Turn}
    {n k : Nat} {p : Site} : Below tuned order (p :: others) c.unmarked ts n k w' ↔
      Below tuned order (p :: others) c ts n k w' := by
  constructor
  · intro h
    cases h
    case parent fits rest => exact .parent fits (Filling.result_receive .. ▸ rest)
  · intro h
    cases h
    case parent fits rest => exact .parent fits ((Filling.result_receive ..).symm ▸ rest)

namespace Attempt

variable {σ : Type} {D : Decider σ} {tuned : Tuned} {order : DrawOrder} {limit : Option Nat}
variable {source source' : σ} {size nodes : Nat} {a b : Attempt σ}

theorem frame_fits {s : Specification} {mark : Nat} {T : String} {c : Constructor Symbol} {t : TypeDef} {x : Filling} :
    x.Fits s (frame mark T (tuned.plan t c)) [] c.refs ↔ ∃ parts, s.Forest c.refs parts ∧ x = ⟨[], [], parts, []⟩ := by
  constructor
  · intro ⟨hd, hr, hp, hh⟩
    obtain ⟨due, run, parts, held⟩ := x
    cases hd
    cases hr
    cases hh
    exact ⟨parts, hp, rfl⟩
  · rintro ⟨parts, hp, rfl⟩
    exact ⟨.nil, .nil, hp, .nil⟩

-- A node filled in this way and those below it: the source takes their turns and is left behind, so many atoms and
-- steps are still to come, and a structure comes out.
def CompletesBy (D : Decider σ) (tuned : Tuned) (order : DrawOrder) (x : Filling) (f : Frame) (others : List Site)
    (source source' : σ) (n k : Nat) (w : Structure) : Prop :=
  ∃ ts m l, Below tuned order others (x.result f) ts m l w ∧
    D.Follows (x.turns tuned order f.slots ++ ts) source source' ∧ n = x.size + m ∧ k = x.steps + l

def Completes (D : Decider σ) (tuned : Tuned) (order : DrawOrder) (f : Frame) (run refs : List String)
    (others : List Site) (source source' : σ) (n k : Nat) (w : Structure) : Prop :=
  ∃ x : Filling, x.Fits tuned.system f run refs ∧ CompletesBy D tuned order x f others source source' n k w

variable {f g : Frame} {run refs : List String} {others : List Site} {n k : Nat} {w : Structure}

-- A step that takes turns and leaves a node with another filling.
theorem CompletesBy.advance {x y : Filling} (ts : List Turn) (atoms : Nat)
    (turns : x.turns tuned order f.slots = ts ++ y.turns tuned order g.slots) (size : x.size = atoms + y.size)
    (steps : x.steps = y.steps + 1) (result : x.result f = y.result g) :
    CompletesBy D tuned order x f others source source' n k w ↔ ∃ next, D.Follows ts source next ∧
      ∃ m l, n = atoms + m ∧ k = l + 1 ∧ CompletesBy D tuned order y g others next source' m l w := by
  constructor
  · intro ⟨us, m, l, below, follows, hn, hk⟩
    rw [turns, List.append_assoc, Decider.follows_append] at follows
    have ⟨next, first, rest⟩ := follows
    exact ⟨next, first, _, _, by omega, by omega, us, m, l, result ▸ below, rest, rfl, rfl⟩
  · intro ⟨next, first, _, _, hn, hk, us, m, l, below, rest, hm, hl⟩
    refine ⟨us, m, l, result ▸ below, ?_, by omega, by omega⟩
    rw [turns, List.append_assoc]
    exact Decider.follows_append.mpr ⟨next, first, rest⟩

theorem CompletesBy.next {x y : Filling} (turns : x.turns tuned order f.slots = y.turns tuned order g.slots)
    (size : x.size = y.size) (steps : x.steps = y.steps + 1) (result : x.result f = y.result g) :
    CompletesBy D tuned order x f others source source' n k w ↔
      ∃ l, k = l + 1 ∧ CompletesBy D tuned order y g others source source' n l w := by
  rw [CompletesBy.advance [] 0 turns (by rw [size, Nat.zero_add]) steps result]
  simp [Decider.follows_nil]

-- Another element of a run, or its end, is one turn.
theorem CompletesBy.more (resolved : tuned.system.Resolved) {r : Run} {m : Modifier} (hr : f.run = some r)
    (hp : r.p = tuned.continuing (TypeDef.auxiliaryName m r.element))
    (haux : .auxiliary m r.element ∈ tuned.system.types) {due elements parts held : List Derivation} {d : Derivation}
    (hes : tuned.system.Forest r.element.type?.toList elements) :
    CompletesBy D tuned order ⟨due, [.cons m r.element elements d], parts, held⟩ f others source source' n k w ↔
      ∃ next, D.goesOn r.p r.element source = some (true, next) ∧ ∃ m l, n = r.element.atomSize + m ∧ k = l + 1 ∧
        CompletesBy D tuned order ⟨due ++ elements, [d], parts, held⟩
          { f with run := some { r with count := r.count + 1 } } others next source' m l w := by
  have declared := Specification.elements_declared resolved haux hes
  rw [CompletesBy.advance (f := f) (g := { f with run := some { r with count := r.count + 1 } }) [_] _
    (Filling.more_turns m _ declared) (Filling.more_size m _) (Filling.more_steps m _)
    (Filling.more_result hr m declared)]
  simp only [Decider.follows_cons, Decider.follows_nil, exists_eq_right, Decider.Takes, hp]

theorem CompletesBy.endRun {r : Run} {m : Modifier} (hr : f.run = some r)
    (hp : r.p = tuned.continuing (TypeDef.auxiliaryName m r.element)) {due parts held : List Derivation} :
    CompletesBy D tuned order ⟨due, [.nil m r.element], parts, held⟩ f others source source' n k w ↔
      ∃ next, D.goesOn r.p r.element source = some (false, next) ∧ ∃ l, k = l + 1 ∧
        CompletesBy D tuned order ⟨due, [], parts, held⟩ (f.endRun r) others next source' n l w := by
  have slots : (f.endRun r).slots = f.slots := by
    rw [Frame.endRun]
    cases r.element <;> rfl
  rw [CompletesBy.advance [_] 0 (by rw [slots]; exact Filling.end_turns m _)
    (by rw [Filling.end_size, Nat.zero_add]) (Filling.end_steps m _) (Filling.end_result hr m _)]
  simp only [Decider.follows_cons, Decider.follows_nil, exists_eq_right, Decider.Takes, hp, Nat.zero_add]
  simp

namespace Completes

theorem quiet (hr : f.run = none) : Completes D tuned order f [] refs others source source' n k w ↔
    ∃ due parts held, tuned.system.Forest f.calls due ∧ tuned.system.Forest refs parts ∧
      tuned.system.Forest f.hole.waits held ∧
      CompletesBy D tuned order ⟨due, [], parts, held⟩ f others source source' n k w := by
  have hd : f.due = f.calls := by simp [Frame.due, hr]
  constructor
  · intro ⟨⟨due, run, parts, held⟩, ⟨hc, hn, hp, hh⟩, by'⟩
    cases hn
    exact ⟨due, parts, held, hd ▸ hc, hp, hh, by'⟩
  · intro ⟨due, parts, held, hc, hp, hh, by'⟩
    exact ⟨⟨due, [], parts, held⟩, ⟨hd ▸ hc, .nil, hp, hh⟩, by'⟩

theorem running {name : String} : Completes D tuned order f [name] refs others source source' n k w ↔
    ∃ due d parts held, tuned.system.Forest f.due due ∧ d ∈ tuned.system.derivations name ∧
      tuned.system.Forest refs parts ∧ tuned.system.Forest f.hole.waits held ∧
      CompletesBy D tuned order ⟨due, [d], parts, held⟩ f others source source' n k w := by
  constructor
  · intro ⟨⟨due, run, parts, held⟩, ⟨hc, hn, hp, hh⟩, by'⟩
    cases hn
    case cons d _ hd hn =>
      cases hn
      exact ⟨due, d, parts, held, hc, hd, hp, hh, by'⟩
  · intro ⟨due, d, parts, held, hc, hd, hp, hh, by'⟩
    exact ⟨⟨due, [d], parts, held⟩, ⟨hc, .cons hd .nil, hp, hh⟩, by'⟩

-- A run is filled by a derivation of its auxiliary type, which has another element or ends.
theorem draw (resolved : tuned.system.Resolved) {r : Run} (valid : f.Valid tuned order run refs) (hr : f.run = some r) :
    Completes D tuned order f run refs others source source' n k w ↔
      (∃ next, D.goesOn r.p r.element source = some (true, next) ∧ ∃ m l, n = r.element.atomSize + m ∧ k = l + 1 ∧
        Completes D tuned order { f with run := some { r with count := r.count + 1 } } run refs others next source'
          m l w) ∨
      ∃ next, D.goesOn r.p r.element source = some (false, next) ∧ ∃ l, k = l + 1 ∧
        Completes D tuned order (f.endRun r) [] refs others next source' n l w := by
  have stands := valid.run
  rw [hr, Option.toList_some, List.map_singleton] at stands
  cases stands
  case cons name _ stands none =>
    cases none
    obtain ⟨hp, m, rfl, haux⟩ := stands
    have ended : (f.endRun r).run = none ∧ (f.endRun r).hole = f.hole ∧ (f.endRun r).calls = f.due := by
      cases he : r.element
      case ref  => simp [Frame.due, Frame.endRun, hr, he, Run.elements, Element.type?]
      case atom => simp [Frame.due, Frame.endRun, hr, he, Run.elements, Element.type?]
    have longer : { f with run := some { r with count := r.count + 1 } }.due = f.due ++ r.element.type?.toList := by
      simp [Frame.due, hr, Run.elements_succ]
    rw [running]
    simp only [running, quiet ended.1]
    rw [longer, ended.2.1, ended.2.2]
    constructor
    · rintro ⟨due, d, parts, held, hd, hd', hps, hh, by'⟩
      cases Specification.auxiliary_cases resolved haux hd'
      case inl he =>
        obtain ⟨next, hn, l, hk, by'⟩ := (CompletesBy.endRun hr hp).mp (he ▸ by')
        exact .inr ⟨next, hn, l, hk, due, parts, held, hd, hps, hh, by'⟩
      case inr he =>
        obtain ⟨elements, rest, hes, hrest, he⟩ := he
        obtain ⟨next, hn, m', l, hm, hk, by'⟩ := (CompletesBy.more resolved hr hp haux hes).mp (he ▸ by')
        exact .inl ⟨next, hn, m', l, hm, hk, _, rest, parts, held, List.rel_append hd hes, hrest, hps, hh, by'⟩
    · intro h
      cases h
      case inl h =>
        obtain ⟨next, hn, m', l, hm, hk, due, d, parts, held, hd, hrest, hps, hh, by'⟩ := h
        obtain ⟨due, elements, rfl, hd', hes⟩ := hd.append_left
        exact ⟨due, .cons m r.element elements d, parts, held, hd', Specification.cons_mem haux hes hrest, hps, hh,
          (CompletesBy.more resolved hr hp haux hes).mpr ⟨next, hn, m', l, hm, hk, by'⟩⟩
      case inr h =>
        obtain ⟨next, hn, l, hk, due, parts, held, hd, hps, hh, by'⟩ := h
        exact ⟨due, .nil m r.element, parts, held, hd, Specification.nil_mem haux, hps, hh,
          (CompletesBy.endRun hr hp).mpr ⟨next, hn, l, hk, by'⟩⟩

theorem look_run {p : Float} {e : Element} {slots : List Slot} {ref : String} (hr : f.run = none)
    (hs : f.slots = .run p e :: slots) (hc : order = .inPlace → f.calls = []) :
    Completes D tuned order f [] (ref :: refs) others source source' n k w ↔
      ∃ l, k = l + 1 ∧
        Completes D tuned order { f with slots, run := some ⟨0, p, e⟩ } [ref] refs others source source' n l w := by
  have hdue : { f with slots, run := some ⟨0, p, e⟩ }.due = f.calls := by
    cases e <;> simp [Frame.due, Run.elements, Element.type?]
  have next {due parts held : List Derivation} {d : Derivation} (hd : tuned.system.Forest f.calls due) :
      CompletesBy D tuned order ⟨due, [], d :: parts, held⟩ f others source source' n k w ↔
        ∃ l, k = l + 1 ∧ CompletesBy D tuned order ⟨due, [d], parts, held⟩ { f with slots, run := some ⟨0, p, e⟩ }
          others source source' n l w := by
    refine CompletesBy.next ?_ Filling.run_size Filling.run_steps (Filling.run_result hr p e)
    rw [hs]
    exact Filling.run_turns fun ho => by simpa [hc ho] using hd
  rw [quiet hr]
  simp only [running, hdue]
  constructor
  · rintro ⟨due, parts, held, hd, hp, hh, by'⟩
    cases hp
    case cons d parts hd' hp =>
      obtain ⟨l, hk, by'⟩ := (next hd).mp by'
      exact ⟨l, hk, due, d, parts, held, hd, hd', hp, hh, by'⟩
  · rintro ⟨l, hk, due, d, parts, held, hd, hd', hp, hh, by'⟩
    exact ⟨due, d :: parts, held, hd, .cons hd' hp, hh, (next hd).mpr ⟨l, hk, by'⟩⟩

theorem look_child {T : String} {c : Bool} {slots : List Slot} (resolved : tuned.system.Resolved) (hr : f.run = none)
    (hs : f.slots = .child T c :: slots) (user : ∃ u ∈ tuned.system.userTypes, u.name = T)
    (hc : order = .inPlace → f.calls = [] ∧ c = false) :
    Completes D tuned order f [] (T :: refs) others source source' n k w ↔
      ∃ l, k = l + 1 ∧
        Completes D tuned order { f with slots, calls := f.calls ++ [T] } [] refs others source source' n l w := by
  obtain ⟨u, hu, rfl⟩ := user
  have next {due parts held : List Derivation} {d : Derivation} (hd : tuned.system.Forest f.calls due)
      (hd' : d ∈ tuned.system.derivations u.name) :
      CompletesBy D tuned order ⟨due, [], d :: parts, held⟩ f others source source' n k w ↔
        ∃ l, k = l + 1 ∧ CompletesBy D tuned order ⟨due ++ [d], [], parts, held⟩
          { f with slots, calls := f.calls ++ [u.name] } others source source' n l w := by
    have declared := Specification.declared_of_user resolved hu hd'
    refine CompletesBy.next ?_ Filling.child_size Filling.child_steps (Filling.child_result declared)
    rw [hs]
    exact Filling.child_turns declared fun ho => ⟨by simpa [(hc ho).1] using hd, (hc ho).2⟩
  have hr' : { f with slots, calls := f.calls ++ [u.name] }.run = none := hr
  rw [quiet hr]
  simp only [quiet hr']
  constructor
  · intro ⟨due, parts, held, hd, hp, hh, by'⟩
    cases hp
    case cons d parts hd' hp =>
      have ⟨l, hk, by'⟩ := (next hd hd').mp by'
      exact ⟨l, hk, due ++ [d], parts, held, List.rel_append hd (.cons hd' .nil), hp, hh, by'⟩
  · intro ⟨l, hk, due, parts, held, hd, hp, hh, by'⟩
    obtain ⟨due, ds, rfl, hd', hds⟩ := hd.append_left
    cases hds
    case cons d _ hd'' none =>
      cases none
      exact ⟨due, d :: parts, held, hd', .cons hd'' hp, hh, (next hd' hd'').mpr ⟨l, hk, by'⟩⟩

theorem look_continuation {T : String} {slots : List Slot} (resolved : tuned.system.Resolved) (hr : f.run = none)
    (hs : f.slots = .child T true :: slots) (user : ∃ u ∈ tuned.system.userTypes, u.name = T)
    (hc : f.calls = []) (hh : f.hole = .none) (ha : f.after = []) :
    Completes D tuned .inPlace f [] (T :: refs) others source source' n k w ↔
      ∃ l, k = l + 1 ∧
        Completes D tuned .inPlace { f with slots, hole := .waiting T } [] refs others source source' n l w := by
  obtain ⟨u, hu, rfl⟩ := user
  have next {parts : List Derivation} {d : Derivation} (hd' : d ∈ tuned.system.derivations u.name) :
      CompletesBy D tuned .inPlace ⟨[], [], d :: parts, []⟩ f others source source' n k w ↔
        ∃ l, k = l + 1 ∧ CompletesBy D tuned .inPlace ⟨[], [], parts, [d]⟩
          { f with slots, hole := .waiting u.name } others source source' n l w := by
    have declared := Specification.declared_of_user resolved hu hd'
    refine CompletesBy.next ?_ Filling.hold_size Filling.hold_steps (Filling.hold_result declared ha)
    rw [hs]
    exact Filling.hold_turns declared
  have hr' : { f with slots, hole := .waiting u.name }.run = none := hr
  constructor
  · intro h
    have ⟨due, parts, held, hd, hp, hw, by'⟩ := (quiet hr).mp h
    rw [hc] at hd
    rw [hh] at hw
    cases hd
    cases hw
    cases hp
    case cons d parts hd' hp =>
      have ⟨l, hk, by'⟩ := (next hd').mp by'
      exact ⟨l, hk, (quiet hr').mpr ⟨[], parts, [d], hc ▸ .nil, hp, .cons hd' .nil, by'⟩⟩
  · intro ⟨l, hk, h⟩
    have ⟨due, parts, held, hd, hp, hw, by'⟩ := (quiet hr').mp h
    simp only [hc] at hd
    cases hd
    cases hw
    case cons d _ hd' none =>
      cases none
      exact (quiet hr).mpr ⟨[], d :: parts, [], hc ▸ .nil, .cons hd' hp, hh ▸ .nil, (next hd').mpr ⟨l, hk, by'⟩⟩

end Completes

end Attempt

end BoltzmannSampling
