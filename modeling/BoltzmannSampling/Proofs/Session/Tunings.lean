import Mathlib
import BoltzmannSampling.Proofs.Assoc
import BoltzmannSampling.Proofs.Derivation.WellFounded
import BoltzmannSampling.Proofs.Tuning.EqualSettings
import BoltzmannSampling.Session.Basic

/-!
The tunings of a session. Whatever has been asked for before, a call gets what an oracle gives that knows of no other
call; what is kept of the calls is told by those that succeeded alone: the first one of each mode and settings, and the
last one of each mode.
-/

namespace BoltzmannSampling

-- The oracle of a session, given the texts of files.
def Policy.oracle (policy : Policy) (files : Files) : Oracle := (TuningSource.ofName policy.tuningFile).oracle files

namespace Session

-- A call for a tuning: a mode as it is written, and settings, which have passed their check when they were made.
structure Call where
  mode : Json
  asked : Option { t : TuningSettings // t.fault? = none }

namespace Entry

-- A tuning that the oracle has made for settings in order.
structure Made (oracle : Oracle) (checked : Checked) (e : Entry) : Prop where
  valid : e.settings.Valid
  tuned : oracle checked e.mode e.settings = .ok e.tuned

variable {oracle : Oracle} {checked : Checked} {e e' : Entry} {mode : Mode} {settings : TuningSettings}

theorem serves_iff : e.serves mode settings = true ↔ e.mode = mode ∧ e.settings.same settings = true := by
  simp [serves]

theorem serves_trans (made : e.Made oracle checked) (made' : e'.Made oracle checked)
    (h : e.serves e'.mode e'.settings = true) (h' : e'.serves mode settings = true) : e.serves mode settings = true := by
  have ⟨hm, hs⟩ := serves_iff.mp h
  have ⟨hm', hs'⟩ := serves_iff.mp h'
  exact serves_iff.mpr ⟨hm.trans hm', TuningSettings.same_trans made.valid made'.valid hs hs'⟩

-- A tuning serves whom the oracle would have given the same one.
theorem Made.served (respects : oracle.Respects) (made : e.Made oracle checked) (valid : settings.Valid)
    (h : e.serves mode settings = true) : oracle checked mode settings = .ok e.tuned := by
  have ⟨hm, hs⟩ := serves_iff.mp h
  exact hm ▸ respects made.valid valid hs made.tuned

end Entry

-- The first tuning of each mode and settings.
def firsts : List Entry → List Entry
  | [] => []
  | e :: rest => e :: (firsts rest).filter fun e' => !e.serves e'.mode e'.settings

-- The last tuning of a mode.
def last? (es : List Entry) (mode : Mode) : Option Tuned := ((es.filter (·.mode == mode)).getLast?).map Entry.tuned

section

variable {oracle : Oracle} {checked : Checked} {es : List Entry} {e : Entry} {mode : Mode} {settings : TuningSettings}

theorem mem_of_mem_firsts (h : e ∈ firsts es) : e ∈ es := by
  induction es
  case nil => cases h
  case cons e' es hi =>
    rcases List.mem_cons.mp h with rfl | h
    · exact List.mem_cons_self
    · exact List.mem_cons_of_mem _ (hi (List.mem_filter.mp h).1)

theorem firsts_append : firsts (es ++ [e]) =
    if es.any (·.serves e.mode e.settings) then firsts es else firsts es ++ [e] := by
  induction es
  case nil => rfl
  case cons e' es hi =>
    rw [List.cons_append, firsts, hi, List.any_cons, firsts]
    by_cases later : es.any (·.serves e.mode e.settings) = true
    case pos => rw [if_pos later, later, Bool.or_true, if_pos rfl]
    case neg =>
      rw [if_neg later, Bool.eq_false_of_not_eq_true later, Bool.or_false, List.filter_append]
      cases he : e'.serves e.mode e.settings <;> simp [he]

-- Whom an entry serves the first one with its key serves as well.
theorem any_firsts (made : ∀ e ∈ es, e.Made oracle checked) :
    (firsts es).any (·.serves mode settings) = es.any (·.serves mode settings) := by
  induction es
  case nil => rfl
  case cons e es hi =>
    have ⟨here, there⟩ := List.forall_mem_cons.mp made
    rw [firsts, List.any_cons, List.any_cons, ← hi there, Bool.eq_iff_iff, Bool.or_eq_true, Bool.or_eq_true]
    apply or_congr_right'
    intro apart
    simp only [List.any_eq_true, List.mem_filter]
    constructor
    · intro ⟨e', ⟨hm, _⟩, hs⟩
      exact ⟨e', hm, hs⟩
    · intro ⟨e', hm, hs⟩
      refine ⟨e', ⟨hm, ?_⟩, hs⟩
      by_contra kept
      exact apart <| Entry.serves_trans here (there e' (mem_of_mem_firsts hm)) (by simpa using kept) hs

theorem last?_append : last? (es ++ [e]) mode = if e.mode == mode then some e.tuned else last? es mode := by
  rw [last?, List.filter_append]
  by_cases hm : (e.mode == mode) = true <;> simp [hm, last?]

end

namespace Call

-- The settings asked for or those of the annotations.
def settings (c : Call) (system : Specification) : Except Failure TuningSettings :=
  ((c.asked.map Subtype.val).map .ok).getD (TuningSettings.ofSystem system)

-- What the oracle gives on a call if it knows of no other.
def fresh (oracle : Oracle) (checked : Checked) (c : Call) : Except Failure Entry := do
  let mode ← Mode.ofJson c.mode
  let settings ← c.settings checked.system
  let tuned ← oracle checked mode settings
  .ok ⟨mode, settings, tuned⟩

-- The successes among fresh calls, in order.
def successes (oracle : Oracle) (checked : Checked) (cs : List Call) : List Entry :=
  cs.filterMap fun c => (c.fresh oracle checked).toOption

def on (oracle : Oracle) (c : Call) (s : Session) : Except Failure Entry × Session :=
  match Mode.ofJson c.mode with
  | .error e => (.error e, s)
  | .ok mode => s.tune oracle mode (c.asked.map Subtype.val)

variable {oracle : Oracle} {checked : Checked} {c : Call} {cs : List Call} {e : Entry}

theorem settings_valid {system : Specification} {t : TuningSettings} (h : c.settings system = .ok t) : t.Valid := by
  rw [settings] at h
  cases ha : c.asked <;> rw [ha] at h
  case none       => exact TuningSettings.valid_ofSystem h
  case some asked =>
    cases h
    exact TuningSettings.valid_of_fault? asked.property

theorem fresh_made (h : c.fresh oracle checked = .ok e) : e.Made oracle checked := by
  have ⟨mode, hm, h⟩ := Checks.bind_eq_ok.mp h
  have ⟨settings, hs, h⟩ := Checks.bind_eq_ok.mp h
  have ⟨tuned, ht, h⟩ := Checks.bind_eq_ok.mp h
  cases h
  exact ⟨settings_valid hs, ht⟩

theorem successes_ok (h : c.fresh oracle checked = .ok e) :
    successes oracle checked (c :: cs) = e :: successes oracle checked cs := by
  rw [successes, List.filterMap_cons, h]
  rfl

theorem successes_error {fault : Failure} (h : c.fresh oracle checked = .error fault) :
    successes oracle checked (c :: cs) = successes oracle checked cs := by
  rw [successes, List.filterMap_cons, h]
  rfl

theorem successes_made : ∀ e ∈ successes oracle checked cs, e.Made oracle checked := by
  intro e he
  have ⟨c, _, hc⟩ := List.mem_filterMap.mp he
  cases hf : c.fresh oracle checked <;> rw [hf] at hc <;> cases hc
  exact fresh_made hf

end Call

-- The answers to calls made one after another, and the session after them.
def run (oracle : Oracle) (s : Session) : List Call → List (Except Failure Entry) × Session
  | []      => ([], s)
  | c :: cs =>
    let (answer, next) := c.on oracle s
    let (answers, last) := next.run oracle cs
    (answer :: answers, last)

-- What a session knows after some tunings that succeeded.
structure Follows (begun : Session) (done : List Entry) (s : Session) : Prop where
  checked : s.checked = begun.checked
  policy  : s.policy = begun.policy
  entries : s.entries = firsts done
  latest  : ∀ mode, (s.latest? mode).map Entry.tuned = last? done mode
  said    : s.said = begun.said ++ if begun.policy.verbose then s.reports.map (Message.mk .info) else []

theorem inform_eq (s : Session) (text : String) :
    s.inform text = { s with said := s.said ++ if s.policy.verbose then [⟨.info, text⟩] else [] } := by
  rw [inform]
  split
  case isTrue  => rfl
  case isFalse => rw [List.append_nil]

theorem add_eq (s : Session) (e : Entry) : s.add e = { s with
    entries := s.entries ++ [e]
    said    := s.said ++ if s.policy.verbose then [⟨.info, e.report⟩] else [] } :=
  inform_eq ..

namespace Follows

variable {oracle : Oracle} {begun s : Session} {done : List Entry} {c : Call} {e : Entry} {mode : Mode}
  {settings : TuningSettings}

-- An entry that is kept serves a call exactly if one of the successes does.
theorem find?_isSome (h : Follows begun done s) (made : ∀ e ∈ done, e.Made oracle begun.checked) (mode : Mode)
    (settings : TuningSettings) :
    (s.entries.find? (·.serves mode settings)).isSome = done.any (·.serves mode settings) := by
  rw [← any_firsts made, ← h.entries, Bool.eq_iff_iff, List.find?_isSome, List.any_eq_true]

theorem of_find? (h : Follows begun done s) (made : ∀ e ∈ done, e.Made oracle begun.checked)
    (found : s.entries.find? (·.serves mode settings) = some e) :
    e.Made oracle begun.checked ∧ e.serves mode settings = true := by
  have serves := List.find?_some found
  exact ⟨made e <| mem_of_mem_firsts <| h.entries ▸ List.mem_of_find?_eq_some found, serves⟩

-- A kept tuning is chosen again.
theorem choose (h : Follows begun done s) (kept : done.any (·.serves e.mode e.settings) = true) {e' : Entry}
    (mode : e'.mode = e.mode) (tuned : e'.tuned = e.tuned) : Follows begun (done ++ [e]) (s.choose e') where
  checked := h.checked
  policy  := h.policy
  entries := by rw [firsts_append, if_pos kept]; exact h.entries
  said    := h.said
  latest  := by
    intro m
    rw [last?_append, ← h.latest, Session.latest?, Session.choose, Assoc.get?_put, mode]
    by_cases hm : (e.mode == m) = true
    case pos => rw [if_pos hm, if_pos hm, Option.map_some, tuned]
    case neg => rw [if_neg hm, if_neg hm, Session.latest?]

-- A new tuning is kept, told of and chosen.
theorem add (h : Follows begun done s) (new : done.any (·.serves e.mode e.settings) = false) :
    Follows begun (done ++ [e]) ((s.add e).choose e) where
  checked := by rw [add_eq]; exact h.checked
  policy  := by rw [add_eq]; exact h.policy
  entries := by
    rw [firsts_append, new, add_eq, ← h.entries]
    rfl
  said    := by
    rw [add_eq]
    simp only [Session.choose, Session.reports, h.said, h.policy]
    cases begun.policy.verbose <;> simp
  latest  := by
    intro m
    rw [last?_append, ← h.latest, Session.latest?, Session.choose, Assoc.get?_put, add_eq]
    by_cases hm : (e.mode == m) = true
    case pos => rw [if_pos hm, if_pos hm, Option.map_some]
    case neg => rw [if_neg hm, if_neg hm, Session.latest?]

-- A call that succeeds on its own.
theorem on_ok (respects : oracle.Respects) (h : Follows begun done s)
    (made : ∀ e ∈ done, e.Made oracle begun.checked) (succeeds : c.fresh oracle begun.checked = .ok e) :
    ∃ e' s', c.on oracle s = (.ok e', s') ∧ e'.tuned = e.tuned ∧ Follows begun (done ++ [e]) s' := by
  have valid := (Call.fresh_made succeeds).valid
  have ⟨mode, hm, succeeds⟩ := Checks.bind_eq_ok.mp succeeds
  have ⟨settings, hs, succeeds⟩ := Checks.bind_eq_ok.mp succeeds
  have ⟨tuned, ht, he⟩ := Checks.bind_eq_ok.mp succeeds
  cases he
  have asked := h.find?_isSome made mode settings
  rw [Call.settings] at hs
  simp only [Call.on, hm, tune, Session.system, h.checked, hs]
  cases found : s.entries.find? (·.serves mode settings)
  case some e' =>
    rw [found] at asked
    have ⟨made', serves⟩ := h.of_find? made found
    have same := made'.served respects valid serves
    have tuned : e'.tuned = tuned := Except.ok.inj (same.symm.trans ht)
    exact ⟨e', _, rfl, tuned, h.choose asked.symm (Entry.serves_iff.mp serves).1 tuned⟩
  case none =>
    rw [found] at asked
    simp only [ht]
    exact ⟨_, _, rfl, rfl, h.add asked.symm⟩

-- A call that fails on its own.
theorem on_error (respects : oracle.Respects) (h : Follows begun done s)
    (made : ∀ e ∈ done, e.Made oracle begun.checked) {fault : Failure}
    (fails : c.fresh oracle begun.checked = .error fault) : c.on oracle s = (.error fault, s) := by
  rcases Checks.bind_eq_error.mp fails with hm | ⟨mode, hm, fails⟩
  · simp only [Call.on, hm]
  rcases Checks.bind_eq_error.mp fails with hs | ⟨settings, hs, fails⟩
  · rw [Call.settings] at hs
    simp only [Call.on, hm, tune, Session.system, h.checked, hs]
  have valid := Call.settings_valid hs
  have ht : oracle begun.checked mode settings = .error fault := by
    rcases Checks.bind_eq_error.mp fails with ht | ⟨_, _, he⟩
    · exact ht
    · cases he
  rw [Call.settings] at hs
  simp only [Call.on, hm, tune, Session.system, h.checked, hs]
  cases found : s.entries.find? (·.serves mode settings)
  case none   => simp only [ht]
  case some e =>
    -- What is kept would have served, and the oracle succeeded.
    have ⟨made', serves⟩ := h.of_find? made found
    cases (made'.served respects valid serves).symm.trans ht

end Follows

variable {oracle : Oracle} {begun s : Session} {done : List Entry}

theorem Follows.run (respects : oracle.Respects) (cs : List Call) (h : Follows begun done s)
    (made : ∀ e ∈ done, e.Made oracle begun.checked) :
    (s.run oracle cs).1.map (·.map Entry.tuned) = cs.map (fun c => (c.fresh oracle begun.checked).map Entry.tuned) ∧
    Follows begun (done ++ Call.successes oracle begun.checked cs) (s.run oracle cs).2 := by
  induction cs generalizing done s
  case nil =>
    refine ⟨rfl, ?_⟩
    rw [Call.successes, List.filterMap_nil, List.append_nil]
    exact h
  case cons c cs hi =>
    cases hc : c.fresh oracle begun.checked
    case error fault =>
      have step := h.on_error respects made hc
      have ⟨answers, later⟩ := hi h made
      simp only [Session.run, step, Call.successes_error hc, List.map_cons, hc]
      exact ⟨congrArg _ answers, later⟩
    case ok e =>
      have ⟨e', s', step, same, next⟩ := h.on_ok respects made hc
      have made' : ∀ e' ∈ done ++ [e], e'.Made oracle begun.checked := by
        simpa [or_imp, forall_and] using ⟨made, Call.fresh_made hc⟩
      have ⟨answers, later⟩ := hi next made'
      simp only [Session.run, step, Call.successes_ok hc, List.map_cons, hc]
      refine ⟨?_, by simpa using later⟩
      rw [answers]
      exact congrArg (· :: _) (congrArg Except.ok same)

theorem follows_begin {system : Specification} {policy : Policy} (h : (begin system policy).1 = .ok begun) :
    begun.policy = policy ∧ Follows begun [] begun := by
  have empty : begun.policy = policy ∧ begun.entries = [] ∧ begun.latest = [] := by
    rw [begin] at h
    cases hc : system.check policy.allowUnsafe <;> rw [hc] at h
    case error => cases h
    case ok checked =>
      cases he : checked.enforce policy.strict <;> simp only [he] at h <;> cases h
      case ok =>
        rw [inform_eq]
        exact ⟨rfl, rfl, rfl⟩
  have ⟨hp, entries, latest⟩ := empty
  refine ⟨hp, rfl, rfl, entries, fun _ => ?_, ?_⟩
  · rw [Session.latest?, latest]
    rfl
  · rw [Session.reports, entries]
    simp

-- Calls for tunings, made one after another on a new session, whatever they are and whether they succeed. Each gets what
-- it would get alone. After them the session holds the last tuning of each mode and has told of the first one of each
-- mode and settings, in their order; and a call that would fail alone fails in the same way and leaves all as it is.
theorem tunings_transparent {system : Specification} {policy : Policy} (h : (begin system policy).1 = .ok begun)
    (files : Files) (cs : List Call) :
    let oracle := policy.oracle files
    let successes := Call.successes oracle begun.checked cs
    let later := (begun.run oracle cs).2
    (begun.run oracle cs).1.map (·.map Entry.tuned) = cs.map (fun c => (c.fresh oracle begun.checked).map Entry.tuned) ∧
    (∀ mode, (later.latest? mode).map Entry.tuned = last? successes mode) ∧
    later.reports = (firsts successes).map Entry.report ∧
    later.said = begun.said ++ (if policy.verbose then later.reports.map (Message.mk .info) else []) ∧
    ∀ (c : Call) (fault : Failure), c.fresh oracle begun.checked = .error fault → c.on oracle later = (.error fault, later) := by
  intro oracle successes later
  have respects : oracle.Respects := TuningSource.oracle_respects files _
  have ⟨hp, empty⟩ := follows_begin h
  have ⟨answers, follows⟩ := empty.run respects cs (by simp)
  rw [List.nil_append] at follows
  refine ⟨answers, follows.latest, congrArg _ follows.entries, hp ▸ follows.said, fun c fault fails => ?_⟩
  exact follows.on_error respects Call.successes_made fails

def wordPolicy : Policy := ⟨false, false, some "t", none, true⟩

def wordTunings : Files := fun _ =>
  .ok "\x7b\"singularity\":0.25,\"probabilities\":\x7b\"More\":0.25,\"Stop\":0.75,\"Seq(@).Nil\":0.5,\"Seq(@).Cons\":0.5\x7d\x7d"

-- The settings of the annotations, no mode at all, the settings of the annotations again, and other settings.
def wordCalls : List Call :=
  [⟨.text "regular", none⟩, ⟨.text "neither", none⟩, ⟨.text "regular", none⟩, ⟨.text "regular", some ⟨.default, rfl⟩⟩]

-- A name without a suffix is that of a document.
theorem oracle_word : wordPolicy.oracle wordTunings = fun c mode _ => Tuned.load wordTunings c mode "t" (some "json") := by
  have components : FilePath.components "t" = ["t"] := by
    have split : "t".splitOn "/" = ["t"] := by
      rw [String.splitOn, if_neg (by decide), String.splitOnAux, if_neg (by decide), if_neg (by decide),
        String.splitOnAux, if_pos (by decide)]
      decide
    rw [FilePath.components, split]
    decide
  have normal : FilePath.normalize "t" = "t" := by
    rw [FilePath.normalize, components]
    decide
  have document : Format.ofPath "t" = .json := by
    rw [Format.ofPath, FilePath.suffix, components]
    decide
  funext c mode _
  change Tuned.load wordTunings c mode "t" none = _
  have known : Format.ofFile "t" none = Format.ofFile "t" (some "json") := congrArg Except.ok document
  simp only [Tuned.load, TuningData.read, normal, known]

theorem words_tunings : ∃ begun, (begin .words wordPolicy).1 = .ok begun ∧
    let later := begun.run (wordPolicy.oracle wordTunings) wordCalls
    (later.1.map fun r => (r.map Entry.tuned).toOption.isSome) = [true, false, true, true] ∧
    later.2.reports.length = 2 := by
  refine ⟨_, rfl, ?_⟩
  have ⟨answers, _, reports, _⟩ := @tunings_transparent _ .words wordPolicy rfl wordTunings wordCalls
  rw [oracle_word] at answers reports ⊢
  constructor
  · have := congrArg (List.map fun r => r.toOption.isSome) answers
    rw [List.map_map] at this
    exact this.trans (by decide +kernel)
  · rw [reports, List.length_map]
    decide +kernel

end Session

end BoltzmannSampling
