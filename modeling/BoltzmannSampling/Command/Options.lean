import BoltzmannSampling.Command.Grammar
import BoltzmannSampling.Session.Basic

/-!
The commands and their options. `tune` writes the tuned system, `spec` the tuning problem for another solver, and
`sample` structures.
-/

namespace BoltzmannSampling

inductive Verb where
  | tune
  | spec
  | sample
deriving DecidableEq, Repr

namespace Verb

def text : Verb → String
  | tune => "tune"
  | spec => "spec"
  | sample => "sample"

def ofText? (s : String) : Option Verb := [tune, spec, sample].find? (·.text == s)

end Verb

inductive Setting where
  | help
  | input
  | output
  | tuningFile
  | saveTuning
  | strict
  | force
  | quiet
  | samples
  | lowerBound
  | upperBound
  | seed
  | workers
  | maxAttempts
deriving DecidableEq, Repr

structure Options where
  verb : Verb
  input : Option String := none
  output : Option String := none
  tuningFile : Option String := none
  saveTuning : Option String := none
  strict : Bool := false
  force : Bool := false
  quiet : Bool := false
  samples : Option Int := none
  lowerBound : Option Int := none
  upperBound : Option Int := none
  seed : Option Int := none
  maxAttempts : Option Int := none

namespace Options

def helpForm : OptionForm Setting := ⟨.help, some 'h', "help", false⟩

def commonForms : List (OptionForm Setting) :=
  [helpForm, ⟨.input, some 'i', "input", true⟩, ⟨.output, some 'o', "output", true⟩,
    ⟨.tuningFile, some 't', "tuning-file", true⟩, ⟨.saveTuning, none, "save-tuning", true⟩,
    ⟨.strict, some 'w', "werror", false⟩, ⟨.force, some 'f', "force", false⟩, ⟨.quiet, none, "quiet", false⟩]

def sampleForms : List (OptionForm Setting) :=
  [⟨.samples, some 'n', "samples", true⟩, ⟨.lowerBound, none, "lower-bound", true⟩,
    ⟨.upperBound, none, "upper-bound", true⟩, ⟨.seed, none, "seed", true⟩, ⟨.workers, none, "workers", true⟩,
    ⟨.maxAttempts, none, "max-attempts", true⟩]

def forms : Verb → List (OptionForm Setting)
  | .sample => commonForms ++ sampleForms
  | _ => commonForms

def integer (value : Option String) : Except Usage Int :=
  match value.bind Text.readInt? with
  | some i => .ok i
  | none => .error .misuse

-- Options with one more set; a later value replaces an earlier one. Structures do not depend on the number of
-- workers, which only has to be an integer.
def set (o : Options) (entry : Setting × Option String) : Except Usage Options :=
  let value := entry.2
  match entry.1 with
  | .help => .error .help
  | .input => .ok { o with input := value }
  | .output => .ok { o with output := value }
  | .tuningFile => .ok { o with tuningFile := value }
  | .saveTuning => .ok { o with saveTuning := value }
  | .strict => .ok { o with strict := true }
  | .force => .ok { o with force := true }
  | .quiet => .ok { o with quiet := true }
  | .samples => (integer value).map fun i => { o with samples := some i }
  | .lowerBound => (integer value).map fun i => { o with lowerBound := some i }
  | .upperBound => (integer value).map fun i => { o with upperBound := some i }
  | .seed => (integer value).map fun i => { o with seed := some i }
  | .workers => (integer value).map fun _ => o
  | .maxAttempts => (integer value).map fun i => { o with maxAttempts := some i }

def ofWords (verb : Verb) (left : Bool) (texts : List String) : Except Usage Options := do
  let words ← CommandWord.ofTexts (forms verb) texts
  let (o, left) ← CommandWord.interpret (forms verb) set { verb } left words
  if left then .error .misuse else .ok o

-- The command of a command line: the first plain word names it. Only a request for help can stand before it; `left`
-- says whether something else did.
def command : Bool → List String → Except Usage Options
  | _, [] => .error .misuse
  | left, text :: rest => do
    let word ← CommandWord.ofText [helpForm] text
    match word with
    | .plain name =>
      match Verb.ofText? name with
      | some verb => ofWords verb left rest
      | none => .error .misuse
    | .separator => .error .misuse
    | .unknown => command true rest
    | _ =>
      let _ ← CommandWord.reading [helpForm] word
      .error .help

def parse (texts : List String) : Except Usage Options :=
  command false texts

-- The policy that options ask for. Commands report their progress.
def policy (o : Options) : Policy := ⟨o.force, o.strict, o.tuningFile, o.maxAttempts, true⟩

def override (o : Options) (t : SamplerSettings) : Except Failure SamplerSettings :=
  SamplerSettings.make { t with
    samples := o.samples.getD t.samples
    lowerBound := o.lowerBound.getD t.lowerBound
    upperBound := o.upperBound.getD t.upperBound
    seed := o.seed <|> t.seed }

end Options

end BoltzmannSampling
