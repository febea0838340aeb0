import BoltzmannSampling.Tuning.Loading
import BoltzmannSampling.Tuning.Solver

/-!
Where the tuning of a system comes from: the solver, or a tuning file.
-/

namespace BoltzmannSampling

abbrev Oracle := Checked → Mode → TuningSettings → Except Failure Tuned

inductive TuningSource where
  | solver
  | file (path : String)
deriving DecidableEq, Repr

namespace TuningSource

-- The file of a name; no name or an empty one stands for the solver.
def ofName : Option String → TuningSource
  | some path => if path.isEmpty then solver else file path
  | none => solver

-- The oracle of a source, given the texts of files. A file does not depend on the settings.
def oracle (files : Files) : TuningSource → Oracle
  | solver => Tuned.solve
  | file path => fun c mode _ => Tuned.load files c mode path none

end TuningSource

end BoltzmannSampling
