import BoltzmannSampling.Command.Options
import BoltzmannSampling.Json.Printer
import BoltzmannSampling.Structure.Flat
import BoltzmannSampling.Tuning.Writing

/-!
What a command does, as a list of effects: messages, text to print and files to write. The effects follow from the
texts that the command reads. A script may end in a failure; a failure with a message is reported.
-/

namespace BoltzmannSampling

structure Inputs where
  standard : String
  files : Files

inductive Effect where
  | say (message : Message)
  | print (text : String)
  | write (path text : String) (format : Format)

structure Script where
  effects : List Effect
  failure : Option Failure

namespace Options

def system (o : Options) (inputs : Inputs) : Except Failure Specification := do
  let text ←
    match o.input with
    | none => .ok inputs.standard
    | some path => (inputs.files path).mapError fun fault => .file fault path
  match Json.read? text with
  | none => .error (.request .invalidDocument)
  | some doc => Specification.ofJson doc

-- The document that a command gives, and the tuned system behind it, if there is one.
def result (o : Options) (inputs : Inputs) (fresh : Nat) (s : Session) :
    Except Failure (Json × Option Tuned) × Session :=
  let oracle := (TuningSource.ofName o.tuningFile).oracle inputs.files
  match o.verb with
  | .spec => ((TuningSettings.ofSystem s.system).bind fun t => (Tuned.problem s.checked t).map (·, none), s)
  | .tune =>
    let (found, later) := s.tune oracle .regular none
    (found.map fun e => (e.tuned.toJson, some e.tuned), later)
  | .sample =>
    match (SamplerSettings.ofSystem s.system).bind o.override with
    | .error e => (.error e, s)
    | .ok settings =>
      let (found, later) := s.sample oracle (some settings) fresh
      (found.map fun structures =>
        (.array (structures.map fun x => x.flat.toJson), (later.latest? .cumulative).map (·.tuned)), later)

def give (o : Options) (doc : Json) : Effect :=
  match o.output with
  | none => .print doc.print
  | some path => .write path doc.print .json

def save (o : Options) (tuned : Option Tuned) : List Effect :=
  match o.saveTuning, tuned with
  | none, _ => []
  | some name, none =>
    if name.isEmpty then [] else [.say ⟨.warning, "--save-tuning has no effect on the spec command."⟩]
  | some name, some tuned =>
    if name.isEmpty then []
    else
      let path := FilePath.normalize name
      let format := Format.ofPath path
      [.write path (tuned.fileText format) format, .say ⟨.info, "Tuning data written to " ++ path ++ "."⟩]

def script (o : Options) (inputs : Inputs) (fresh : Nat) : Script :=
  match o.system inputs with
  | .error e => ⟨[], some e⟩
  | .ok system =>
    match Session.begin system o.policy with
    | (.error e, said) => ⟨said.map .say, some e⟩
    | (.ok session, _) =>
      match o.result inputs fresh session with
      | (.error e, later) => ⟨later.said.map .say, some e⟩
      | (.ok (doc, tuned), later) => ⟨later.said.map .say ++ o.give doc :: o.save tuned, none⟩

end Options

-- How a command ends: well, with a failure that was reported, or with one that could not be.
inductive Ending where
  | done
  | reported
  | aborted (failure : Failure)

structure Outcome where
  ending : Ending
  printed : String
  said : List Message
  folder : Folder

namespace Outcome

def fail (o : Outcome) (failure : Failure) : Outcome :=
  match failure.message? with
  | some text => { o with ending := .reported, said := o.said ++ [⟨.error, text⟩] }
  | none => { o with ending := .aborted failure }

def carryOut : Outcome → List Effect → Option Failure → Outcome
  | o, [], none => o
  | o, [], some failure => o.fail failure
  | o, .say m :: rest, failure => carryOut { o with said := o.said ++ [m] } rest failure
  | o, .print text :: rest, failure => carryOut { o with printed := o.printed ++ text } rest failure
  | o, .write path text format :: rest, failure =>
    match o.folder.write path text with
    | .ok folder => carryOut { o with folder } rest failure
    | .error fault => o.fail (format.failure path fault)

end Outcome

namespace Options

-- A command carried out in a folder. The messages are those that its console shows.
def run (o : Options) (folder : Folder) (standard : String) (fresh : Nat) : Outcome :=
  let script := o.script ⟨standard, folder.read⟩ fresh
  let outcome := Outcome.carryOut ⟨.done, "", [], folder⟩ script.effects script.failure
  { outcome with said := (Console.mk o.quiet).shown outcome.said }

end Options

end BoltzmannSampling
