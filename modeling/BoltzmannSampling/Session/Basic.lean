import BoltzmannSampling.Console
import BoltzmannSampling.Sampler.Basic
import BoltzmannSampling.Tuning.Source

/-!
A session with one system: it is checked at the beginning, then tuned and sampled as often as asked. A tuning is
computed once for a mode and settings and kept; a tuning that fails changes nothing.
-/

namespace BoltzmannSampling

-- What to do with systems that are not well-founded and with warnings, where tunings come from, how many attempts at
-- a structure may fail, and whether to report progress.
structure Policy where
  allowUnsafe : Bool
  strict : Bool
  tuningFile : Option String
  maxAttempts : Option Int
  verbose : Bool

namespace Session

-- A tuned system with the mode and the settings that it was made for.
structure Entry where
  mode : Mode
  settings : TuningSettings
  tuned : Tuned

namespace Entry

def serves (e : Entry) (mode : Mode) (settings : TuningSettings) : Bool :=
  e.mode == mode && e.settings.same settings

def report (e : Entry) : String :=
  "Singularity ρ = " ++ Decimal.rounded 12 e.tuned.singularity ++ ", tuning parameter z = " ++
    Decimal.rounded 12 e.tuned.parameter ++ "."

end Entry

end Session

-- The tunings made so far, the latest one of each mode, and what has been said.
structure Session where
  checked : Checked
  policy : Policy
  entries : List Session.Entry
  latest : List (Mode × Session.Entry)
  said : List Message

namespace Session

def system (s : Session) : Specification := s.checked.system

def say (s : Session) (m : Message) : Session := { s with said := s.said ++ [m] }

def inform (s : Session) (text : String) : Session := if s.policy.verbose then s.say ⟨.info, text⟩ else s

-- Begins a session. Flaws of a system that is taken nevertheless are reported as errors; then come the warnings,
-- unless they count as errors. What has been said is known also if there is no session.
def begin (system : Specification) (policy : Policy) : Except Failure Session × List Message :=
  match system.check policy.allowUnsafe with
  | .error e => (.error e, [])
  | .ok checked =>
    let flaws := checked.errors.map fun f => Message.mk .error f.message
    let caution :=
      if checked.wellFounded then []
      else [⟨.warning, "Continuing with an ill-founded system; sampling it may not terminate."⟩]
    match checked.enforce policy.strict with
    | .error e => (.error e, flaws ++ caution)
    | .ok warnings =>
      let said := flaws ++ caution ++ warnings.map fun f => ⟨.warning, f.message⟩
      let session := (Session.mk checked policy [] [] said).inform
        ("System of " ++ toString system.userTypes.length ++ " type(s) classified as " ++
          checked.classification.text ++ ".")
      (.ok session, session.said)

def reports (s : Session) : List String := s.entries.map Entry.report

def latest? (s : Session) (mode : Mode) : Option Entry := Assoc.get? s.latest mode

def choose (s : Session) (e : Entry) : Session := { s with latest := Assoc.put s.latest e.mode e }

def add (s : Session) (e : Entry) : Session := ({ s with entries := s.entries ++ [e] }).inform e.report

-- Tunes for a mode, with the settings asked for or those of the annotations.
def tune (oracle : Oracle) (s : Session) (mode : Mode) (asked : Option TuningSettings) :
    Except Failure Entry × Session :=
  match (asked.map .ok).getD (TuningSettings.ofSystem s.system) with
  | .error e => (.error e, s)
  | .ok settings =>
    match s.entries.find? (·.serves mode settings) with
    | some entry => (.ok entry, s.choose entry)
    | none =>
      match oracle s.checked mode settings with
      | .error e => (.error e, s)
      | .ok tuned =>
        let entry := ⟨mode, settings, tuned⟩
        (.ok entry, (s.add entry).choose entry)

-- Structures as asked for, drawn from a tuned system. Without a seed, `fresh` is taken.
def draw (s : Session) (settings : SamplerSettings) (fresh : Nat) (tuned : Tuned) :
    Except Failure (List Structure) :=
  let request : DrawRequest :=
    ⟨some (settings.start s.system), .int settings.lowerBound, .int settings.upperBound, s.policy.maxAttempts⟩
  ((Sampler.ofTuned tuned).sampleMany request settings.samples (Entropy.ofSeed (settings.seed.getD fresh))).1

-- Samples with given settings, from a cumulative tuning that suits them.
def sampleWith (oracle : Oracle) (s : Session) (settings : SamplerSettings) (fresh : Nat) :
    Except Failure (List Structure) × Session :=
  match settings.tuning s.system with
  | .error e => (.error e, s)
  | .ok asked =>
    match s.tune oracle .cumulative (some asked) with
    | (.error e, later) => (.error e, later)
    | (.ok entry, later) => (later.draw settings fresh entry.tuned, later)

def sample (oracle : Oracle) (s : Session) (asked : Option SamplerSettings) (fresh : Nat) :
    Except Failure (List Structure) × Session :=
  match asked with
  | some settings => s.sampleWith oracle settings fresh
  | none =>
    let s :=
      if (Assoc.get? s.system.annotations "samples").isSome then s
      else s.say ⟨.hint, "No @samples annotation; drawing a single structure."⟩
    match SamplerSettings.ofSystem s.system with
    | .error e => (.error e, s)
    | .ok settings => s.sampleWith oracle settings fresh

-- What a code generator needs: a tuned system, its class, and the name of the module to write.
structure HandOff where
  entry : Entry
  classification : Classification
  module : String

def handOff (oracle : Oracle) (s : Session) (mode : Mode) : Except Failure HandOff × Session :=
  match SamplerSettings.ofSystem s.system with
  | .error e => (.error e, s)
  | .ok settings =>
    let (found, later) := s.tune oracle mode none
    (found.map fun entry => ⟨entry, s.checked.classification, settings.module⟩, later)

end Session

end BoltzmannSampling
