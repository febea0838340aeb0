import BoltzmannSampling.Failure
import BoltzmannSampling.FilePath

/-!
The formats of tuning files: documents, and tables with one row for each constructor.
-/

namespace BoltzmannSampling

inductive Format where
  | json
  | csv
deriving DecidableEq, Repr

namespace Format

def lower (s : String) : String := String.ofList (s.toList.map Char.toLower)

def ofPath (path : String) : Format :=
  if lower (FilePath.suffix path) = ".csv" then csv else json

-- The format of a file: the one asked for by name, or that of its suffix.
def ofFile (path : String) (asked : Option String) : Except Failure Format :=
  match asked with
  | none => .ok (ofPath path)
  | some name =>
    if lower name = "json" then .ok json
    else if lower name = "csv" then .ok csv
    else .error (.request (.format (lower name)))

end Format

end BoltzmannSampling
