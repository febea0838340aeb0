import Mathlib
import BoltzmannSampling.Proofs.Sampler.Completion

/-!
What a node under construction does after its runs. It looks at its arguments, it begins a node on top for a child or
for the continuation, and in the end the node below takes it over. Each keeps what there is to come.
-/

namespace BoltzmannSampling

namespace Attempt

variable {σ : Type} {D : Decider σ} {tuned : Tuned} {order : DrawOrder} {limit : Option Nat}
variable {f : Frame} {refs calls : List String} {others : List Site} {T : String}
variable {source source' : σ} {n k : Nat} {w : Structure}

theorem Completes.look {slot : Slot} {slots : List Slot} {r : String} (resolved : tuned.system.Resolved)
    (valid : f.Valid tuned order [] (r :: refs)) (hr : f.run = none) (hs : f.slots = slot :: slots)
    (hc : order = .inPlace → f.calls = []) :
    Completes D tuned order f [] (r :: refs) others source source' n k w ↔ ∃ l, k = l + 1 ∧
      Completes D tuned order (f.take order slot slots) (Frame.Valid.opened r slot) refs others source source' n l w := by
  have stands := valid.slots
  rw [hs] at stands
  cases stands
  case cons stand _ =>
    cases slot
    case run p e   => exact look_run hr hs hc
    case child T c =>
      obtain ⟨rfl, user⟩ := stand
      rw [Frame.take]
      split
      case isTrue hi =>
        obtain ⟨rfl, rfl⟩ := hi
        obtain ⟨hh, ha⟩ : f.hole = .none ∧ f.after = [] := by
          cases valid.hole_of_busy (Frame.busy_of_slots hs)
          case inl h => exact h
          case inr h =>
            obtain ⟨T', hT⟩ := h
            have := (valid.waiting T' hT).2 rfl (.child T true) (hs ▸ List.mem_cons_self)
            simp [Slot.continues] at this
        exact look_continuation resolved hr hs user (hc rfl) hh ha
      case isFalse hi => exact look_child resolved hr hs user fun ho => ⟨hc ho, by simpa [ho] using hi⟩

-- A node of a type is begun on top of others: it comes out as a derivation, and the others are filled in turn.
def Begins (D : Decider σ) (tuned : Tuned) (order : DrawOrder) (T : String) (others : List Site)
    (source source' : σ) (n k : Nat) (w : Structure) : Prop :=
  ∃ d ∈ tuned.system.derivations T, ∃ ts m l, Below tuned order others d.toStructure ts m l w ∧
    D.Follows (d.turns tuned order ++ ts) source source' ∧ n = d.size + m ∧ k = d.steps + l

theorem begins_iff (resolved : tuned.system.Resolved) {u : TypeDef} (hu : u ∈ tuned.system.userTypes) (mark : Nat) :
    Begins D tuned order u.name others source source' n k w ↔ ∃ c ∈ u.constructors, ∃ next,
      D.Follows (tuned.pick u c) source next ∧ ∃ m l, n = c.size + m ∧ k = l + 1 ∧
        Completes D tuned order (frame mark u.name (tuned.plan u c)) [] c.refs others next source' m l w := by
  have ⟨ht, ha⟩ := List.mem_filter.mp hu
  have ha : u.isAuxiliary = false := by simpa using ha
  constructor
  · intro ⟨⟨t, c, ps⟩, hd, ts, m, l, below, follows, hn, hk⟩
    obtain rfl : t = u := Specification.type_eq resolved ht hd
    have ⟨_, hc, hp⟩ := Specification.node_mem_derivations.mp hd
    rw [Filling.frame_turns ha, List.append_assoc] at follows
    have ⟨next, pick, follows⟩ := Decider.follows_append.mp follows
    rw [Filling.frame_size] at hn
    rw [Filling.frame_steps ha] at hk
    exact ⟨c, hc, next, pick, _, _, by omega, by omega, ⟨[], [], ps, []⟩, frame_fits.mpr ⟨ps, hp, rfl⟩, ts, m, l,
      Filling.frame_result t c mark ▸ below, follows, rfl, rfl⟩
  · intro ⟨c, hc, next, pick, _, _, hn, hk, x, fits, ts, m, l, below, follows, hm, hl⟩
    obtain ⟨ps, hp, rfl⟩ := frame_fits.mp fits
    refine ⟨.node u c ps, Specification.node_mem_derivations.mpr ⟨⟨ht, rfl⟩, hc, hp⟩, ts, m, l,
      (Filling.frame_result u c mark).symm ▸ below, ?_, ?_, ?_⟩
    · rw [Filling.frame_turns ha, List.append_assoc]
      exact Decider.follows_append.mpr ⟨next, pick, follows⟩
    · rw [Filling.frame_size]
      omega
    · rw [Filling.frame_steps ha]
      omega

theorem begins_nil : Begins D tuned order T [] source source' n k w ↔ ∃ d ∈ tuned.system.derivations T,
    D.Follows (d.turns tuned order) source source' ∧ n = d.size ∧ k = d.steps ∧ w = d.toStructure := by
  constructor
  · intro ⟨d, hd, ts, m, l, below, follows, hn, hk⟩
    cases below
    exact ⟨d, hd, by simpa using follows, hn, hk, rfl⟩
  · intro ⟨d, hd, follows, hn, hk, hw⟩
    exact ⟨d, hd, [], 0, 0, hw ▸ .root, by simpa using follows, hn, hk⟩

namespace CompletesBy

-- A node filled in this way begins another one with the first of its derivations.
theorem begin {x y : Filling} {d : Derivation} {g : Frame} (hd : d ∈ tuned.system.derivations T)
    (fits : y.Fits tuned.system g [] refs)
    (turns : x.turns tuned order f.slots = d.turns tuned order ++ y.turns tuned order g.slots)
    (size : x.size = d.size + y.size) (steps : x.steps = d.steps + y.steps)
    (result : x.result f = y.result (g.receive d.toStructure))
    (h : CompletesBy D tuned order x f others source source' n k w) :
    Begins D tuned order T (⟨g, [], refs⟩ :: others) source source' n k w := by
  have ⟨ts, m, l, below, follows, hn, hk⟩ := h
  refine ⟨d, hd, _, _, _, .parent fits (result ▸ below), ?_, by omega, by omega⟩
  rw [← List.append_assoc, ← turns]
  exact follows

theorem of_begins {x y : Filling} {d : Derivation} {g : Frame} {ts : List Turn} {m l : Nat}
    (turns : x.turns tuned order f.slots = d.turns tuned order ++ y.turns tuned order g.slots)
    (size : x.size = d.size + y.size) (steps : x.steps = d.steps + y.steps)
    (result : x.result f = y.result (g.receive d.toStructure))
    (below : Below tuned order others (y.result (g.receive d.toStructure)) ts m l w)
    (follows : D.Follows (d.turns tuned order ++ (y.turns tuned order g.slots ++ ts)) source source')
    (hn : n = d.size + (y.size + m)) (hk : k = d.steps + (y.steps + l)) :
    CompletesBy D tuned order x f others source source' n k w :=
  ⟨ts, m, l, result ▸ below, by rwa [turns, List.append_assoc], by omega, by omega⟩

end CompletesBy

namespace Completes

theorem call (valid : f.Valid tuned order [] refs) (hr : f.run = none) (hc : f.calls = T :: calls)
    (ho : order = .ahead → f.slots = []) :
    Completes D tuned order f [] refs others source source' n k w ↔
      Begins D tuned order T (⟨{ f with calls }, [], refs⟩ :: others) source source' n k w := by
  have hole := valid.hole_of_busy (Frame.busy_of_calls hc)
  have hdue : { f with calls }.due = calls := by simp [Frame.due, hr]
  have hr' : { f with calls }.run = none := hr
  have result {due parts held : List Derivation} {d : Derivation} (hh : tuned.system.Forest f.hole.waits held) :
      (⟨d :: due, [], parts, held⟩ : Filling).result f =
        (⟨due, [], parts, held⟩ : Filling).result ({ f with calls }.receive d.toStructure) := by
    apply Filling.call_result d.unmarked_toStructure
    cases hole
    case inl h =>
      rw [h.1] at hh
      cases hh
      exact .inl ⟨h.1, h.2, rfl⟩
    case inr h => exact .inr h
  have turns {due parts held : List Derivation} {d : Derivation} (hp : tuned.system.Forest refs parts) :
      (⟨d :: due, [], parts, held⟩ : Filling).turns tuned order f.slots =
        d.turns tuned order ++ (⟨due, [], parts, held⟩ : Filling).turns tuned order f.slots :=
    Filling.call_turns ho <| valid.slots.length_eq.symm.trans hp.length_eq
  constructor
  · intro h
    obtain ⟨due, parts, held, hd, hp, hh, by'⟩ := (quiet hr).mp h
    rw [hc] at hd
    cases hd
    case cons d due hd hds =>
      have fits : (⟨due, [], parts, held⟩ : Filling).Fits tuned.system { f with calls } [] refs :=
        ⟨by rwa [hdue], .nil, hp, hh⟩
      exact by'.begin hd fits (turns hp) Filling.call_size Filling.call_steps (result hh)
  · rintro ⟨d, hd, _, _, _, below, follows, hn, hk⟩
    cases below
    case parent y ts m l fits below =>
      obtain ⟨due, run, parts, held⟩ := y
      obtain ⟨hds, hrun, hp, hh⟩ := fits
      cases hrun
      exact (quiet hr).mpr ⟨d :: due, parts, held, hc ▸ .cons hd (hdue ▸ hds), hp, hh,
        .of_begins (g := { f with calls }) (turns hp) Filling.call_size Filling.call_steps (result hh) below follows hn hk⟩

theorem «continue» (valid : f.Valid tuned order [] refs) (idle : f.Idle) (hh : f.hole = .waiting T) :
    Completes D tuned order f [] refs others source source' n k w ↔
      Begins D tuned order T (⟨{ f with hole := .filling }, [], refs⟩ :: others) source source' n k w := by
  obtain ⟨hr, hc, hs⟩ := idle
  have slots := valid.slots
  rw [hs] at slots
  cases slots
  have turns {d : Derivation} : (⟨[], [], [], [d]⟩ : Filling).turns tuned order f.slots =
      d.turns tuned order ++ (⟨[], [], [], []⟩ : Filling).turns tuned order f.slots := by
    rw [hs]
    exact Filling.continue_turns
  have result {d : Derivation} : (⟨[], [], [], [d]⟩ : Filling).result f =
      (⟨[], [], [], []⟩ : Filling).result ({ f with hole := .filling }.receive d.toStructure) :=
    Filling.continue_result d.unmarked_toStructure
  have hdue : { f with hole := .filling }.due = [] := by simp [Frame.due, hr, hc]
  constructor
  · intro h
    obtain ⟨due, parts, held, hd, hp, hw, by'⟩ := (quiet hr).mp h
    rw [hc] at hd
    rw [hh] at hw
    cases hd
    cases hp
    cases hw
    case cons d held hd hw =>
      cases hw
      exact by'.begin hd ⟨hdue ▸ .nil, .nil, .nil, .nil⟩ turns Filling.continue_size Filling.continue_steps result
  · rintro ⟨d, hd, _, _, _, below, follows, hn, hk⟩
    cases below
    case parent y ts m l fits below =>
      obtain ⟨due, run, parts, held⟩ := y
      obtain ⟨hds, hrun, hp, hw⟩ := fits
      rw [hdue] at hds
      cases hds
      cases hrun
      cases hp
      cases hw
      exact (quiet hr).mpr ⟨[], [], [d], hc ▸ .nil, .nil, hh ▸ .cons hd .nil,
        .of_begins (g := { f with hole := .filling }) turns Filling.continue_size Filling.continue_steps result below
          follows hn hk⟩

-- Nothing is left to do for a node: it is the structure, or the node below takes it over.
theorem finish (hr : f.run = none) (hc : f.calls = []) (hh : f.hole.waits = []) :
    Completes D tuned order f [] [] others source source' n k w ↔ ∃ l, k = l + 1 ∧
      ∃ ts, Below tuned order others f.close.unmarked ts n l w ∧ D.Follows ts source source' := by
  have size : (⟨[], [], [], []⟩ : Filling).size = 0 := rfl
  have steps : (⟨[], [], [], []⟩ : Filling).steps = 1 := rfl
  have turns : (⟨[], [], [], []⟩ : Filling).turns tuned order f.slots = [] := by
    cases order <;> cases f.slots <;> simp [Filling.turns, DrawOrder.arrange, DrawOrder.early, DrawOrder.late]
  have result := Filling.empty_result hr
  constructor
  · intro h
    obtain ⟨due, parts, held, hd, hp, hw, ts, m, l, below, follows, hn, hk⟩ := (quiet hr).mp h
    rw [hc] at hd
    rw [hh] at hw
    cases hd
    cases hp
    cases hw
    rw [turns] at follows
    rw [size, Nat.zero_add] at hn
    rw [steps, Nat.add_comm] at hk
    exact ⟨l, hk, ts, hn ▸ result ▸ below, follows⟩
  · rintro ⟨l, hk, ts, below, follows⟩
    refine (quiet hr).mpr ⟨[], [], [], hc ▸ .nil, .nil, hh ▸ .nil, ts, n, l, result ▸ below, ?_, ?_, ?_⟩
    · rwa [turns]
    · rw [size, Nat.zero_add]
    · rw [steps, Nat.add_comm, hk]

theorem receive {p : Site} {c : Structure} :
    Completes D tuned order (p.frame.receive c) p.run p.refs others source source' n k w ↔
      ∃ ts, Below tuned order (p :: others) c ts n k w ∧ D.Follows ts source source' := by
  have slots : (p.frame.receive c).slots = p.frame.slots := by
    rw [Frame.receive]
    cases p.frame.hole <;> rfl
  constructor
  · rintro ⟨x, fits, ts, m, l, below, follows, hn, hk⟩
    rw [slots] at follows
    exact ⟨_, hn ▸ hk ▸ .parent ((Filling.fits_receive c).mp fits) below, follows⟩
  · rintro ⟨ts, below, follows⟩
    cases below
    case parent fits below =>
      refine ⟨_, (Filling.fits_receive c).mpr fits, _, _, _, below, ?_, rfl, rfl⟩
      rwa [slots]

end Completes

end Attempt

end BoltzmannSampling
