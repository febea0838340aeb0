import BoltzmannSampling.Folder
import BoltzmannSampling.Json.Printer
import BoltzmannSampling.Table.Printer
import BoltzmannSampling.Tuning.Format
import BoltzmannSampling.Tuning.Tuned

/-!
Tuned systems as tuning files.
-/

namespace BoltzmannSampling

namespace Format

-- Why a file of a format cannot be written: a table needs its folder.
def failure (format : Format) (path : String) (fault : FileFault) : Failure :=
  match format, fault with
  | csv, .missing | csv, .notFolder => .file .noFolder (FilePath.parent path)
  | _, _ => .file fault path

end Format

namespace Tuned

def numbersJson (numbers : List (String × Float)) : Json :=
  .object (numbers.map fun (name, x) => (name, .float x))

def dataJson (tuned : Tuned) : Json :=
  .object [("type", .text tuned.classification.text), ("mode", .text tuned.mode.text),
    ("singularity", .float tuned.singularity), ("parameter", .float tuned.parameter),
    ("values", numbersJson tuned.values), ("probabilities", numbersJson tuned.constructorProbabilities)]

-- The text of a number in a table; one that is none is an empty cell.
def cell (x : Float) : String := if x.isNaN then "" else Decimal.text x

def dataTable (tuned : Tuned) : Table :=
  ⟨["type", "constructor", "probability", "singularity", "parameter", "value"],
    tuned.frame.map fun r =>
      [r.typeName, r.constructor, cell r.probability, cell tuned.singularity, cell tuned.parameter,
        (r.value.map cell).getD ""]⟩

def fileText (tuned : Tuned) (format : Format) : String :=
  match format with
  | .json => tuned.dataJson.print
  | .csv => tuned.dataTable.print

def write (tuned : Tuned) (folder : Folder) (name : String) (asked : Option String) :
    Except Failure (String × Folder) := do
  let path := FilePath.normalize name
  let format ← Format.ofFile path asked
  match folder.write path (tuned.fileText format) with
  | .ok later => .ok (path, later)
  | .error fault => .error (format.failure path fault)

end Tuned

end BoltzmannSampling
