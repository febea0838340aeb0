import BoltzmannSampling.Command.Script

/-!
The command line. Standard output holds documents only; messages go to standard error.
-/

namespace BoltzmannSampling

namespace CommandLine

def faultOf : IO.Error → FileFault
  | .noFileOrDirectory .. => .missing
  | .permissionDenied .. => .denied
  | .inappropriateType .. => .folder
  | _ => .missing

def textOf (path : String) : IO (Except FileFault String) := do
  try
    return .ok (← IO.FS.readFile path)
  catch e =>
    return .error (faultOf e)

def report (console : Console) (m : Message) : IO Unit := do
  if console.shows m then IO.eprint m.line

def failWith (console : Console) (failure : Failure) : IO UInt32 := do
  report console ⟨.error, failure.message?.getD "The values are out of range."⟩
  return 1

def carryOut (console : Console) : List Effect → Option Failure → IO UInt32
  | [], none => return 0
  | [], some failure => failWith console failure
  | .say m :: rest, failure => do
    report console m
    carryOut console rest failure
  | .print text :: rest, failure => do
    IO.print text
    carryOut console rest failure
  | .write path text format :: rest, failure => do
    let fault ← try
        IO.FS.writeFile path text
        pure none
      catch e => pure (some (faultOf e))
    match fault with
    | none => carryOut console rest failure
    | some fault => failWith console (format.failure path fault)

def usage : String :=
  "usage: tune|spec|sample [-h] [-i INPUT] [-o OUTPUT] [-t TUNING_FILE] [--save-tuning FILE] [-w] [-f] [--quiet]\n" ++
    "sample also takes: [-n SAMPLES] [--lower-bound N] [--upper-bound N] [--seed N] [--workers N] [--max-attempts N]\n"

def freshSeed : IO Nat := do
  let bytes ← IO.getRandomBytes 16
  return bytes.toList.foldl (fun n b => 256 * n + b.toNat) 0

end CommandLine

end BoltzmannSampling

open BoltzmannSampling CommandLine

def main (args : List String) : IO UInt32 := do
  match Options.parse args with
  | .error reason =>
    if reason = .help then IO.print usage else IO.eprint usage
    return reason.status.toUInt32
  | .ok o =>
    let standard ← if o.input.isNone then (← IO.getStdin).readToEnd else pure ""
    let names := o.input.toList ++ (o.tuningFile.map FilePath.normalize).toList
    let texts ← names.mapM fun name => return (name, ← textOf name)
    let files : Files := fun name => (Assoc.get? texts name).getD (.error .missing)
    let script := o.script ⟨standard, files⟩ (← freshSeed)
    carryOut ⟨o.quiet⟩ script.effects script.failure
