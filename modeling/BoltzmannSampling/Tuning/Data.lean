import BoltzmannSampling.Folder
import BoltzmannSampling.Json.Reader
import BoltzmannSampling.Table.Column
import BoltzmannSampling.Table.Reader
import BoltzmannSampling.Tuning.Format
import BoltzmannSampling.Tuning.Tuned

/-!
Tuning data as files hold them, before they are compared with a system: numbers by name, and the names that occurred
again. A document has either the probabilities of constructors by name, or a list of types with constructors; a
table has a row for each constructor.
-/

namespace BoltzmannSampling

-- Numbers by name. Names in a document should be texts, but are not always.
abbrev Numbers := List (Json × Float)

namespace Numbers

-- Whether two names are one: texts that are equal, numbers and truth values of one value, null and null.
def sameName : Json → Json → Bool
  | .text a, .text b => a == b
  | .number a, .number b => a.same b
  | .bool a, .bool b => a == b
  | .number a, .bool b => a.same (.int (if b then 1 else 0))
  | .bool a, .number b => b.same (.int (if a then 1 else 0))
  | .null, .null => true
  | _, _ => false

def isName : Json → Bool
  | .array _ | .object _ => false
  | _ => true

def has (numbers : Numbers) (name : Json) : Bool := numbers.any fun (n, _) => sameName n name

-- A new name goes to the end; a known one keeps its place and takes the new number.
def put : Numbers → Json → Float → Numbers
  | [], name, x => [(name, x)]
  | (n, v) :: rest, name, x => if sameName n name then (n, x) :: rest else (n, v) :: put rest name x

def texts? (numbers : Numbers) : Option (List (String × Float)) :=
  numbers.mapM fun (n, x) => n.text?.map (·, x)

end Numbers

structure TuningData where
  singularity : Option Float
  parameter : Option Float
  probabilities : Numbers
  values : Numbers
  duplicated : List Json
  mode : Option Mode

namespace TuningData

-- The double nearest to a number in a document. Truth values are no numbers.
def number (place : Quantity) (found : Json) : Except Failure Float :=
  match found with
  | .number n => (n.toFloat?.map .ok).getD (.error .tooLarge)
  | _ => .error (.data (.notNumber place found))

def number? (place : Quantity) (found : Option Json) : Except Failure (Option Float) :=
  found.mapM (number place)

def modeOf (doc : Json) : Except Failure (Option Mode) :=
  match doc.given? "mode" with
  | none => .ok none
  | some found =>
    if !Numbers.isName found then .error .wrongKind
    else
      match found.text?.bind Mode.ofText? with
      | some mode => .ok (some mode)
      | none => .error (.data (.mode found))

def numbersOf (place : Json → Quantity) (entries : List (String × Json)) : Except Failure Numbers :=
  entries.mapM fun (name, found) => do .ok (.text name, ← number (place (.text name)) found)

-- What a document says about constructors and types: probabilities, names that occurred again, and values.
structure Contents where
  probabilities : Numbers
  duplicated : List Json
  values : Numbers

-- The values by name of a document; those that are null are missing.
def valuesOf (doc : Json) : Except Failure Numbers :=
  match doc.get? "values" with
  | none => .ok []
  | some found =>
    if found.isBlank then .ok []
    else
      match found.entries? with
      | some entries => numbersOf .value (entries.filter fun (_, v) => match v with | .null => false | _ => true)
      | none => .error (.data .valuesEntry)

def ofNames (doc probabilities : Json) : Except Failure Contents :=
  match probabilities with
  | .object fields => do
    let ps ← numbersOf .probability (Assoc.ofFields fields)
    .ok ⟨ps, (Assoc.repeated (fields.map (·.1))).map .text, ← valuesOf doc⟩
  | _ => .error (.data .probabilitiesEntry)

def addConstructor (c : Contents) (entry : Json) : Except Failure Contents :=
  match entry.get? "name", entry.get? "probability" with
  | some name, some found =>
    if !Numbers.isName name then .error .wrongKind
    else do
      let p ← number (.probability name) found
      .ok { c with
        probabilities := c.probabilities.put name p
        duplicated := if c.probabilities.has name then c.duplicated ++ [name] else c.duplicated }
  | _, _ => .error (.data (.constructorEntry entry))

def addValue (c : Contents) (name : Json) (found : Option Json) : Except Failure Contents := do
  match ← number? (.value name) found with
  | none => .ok c
  | some v => if Numbers.isName name then .ok { c with values := c.values.put name v } else .error .wrongKind

def addType (c : Contents) (entry : Json) : Except Failure Contents :=
  match entry.get? "name" with
  | none => .error (.data (.typeEntry entry))
  | some name => do
    let c ← addValue c name (entry.given? "value")
    (← Specification.partsOf entry "constructors").foldlM addConstructor c

-- The contents of a document: probabilities by name come before a list of types.
def contentsOf (doc : Json) : Except Failure Contents :=
  match doc.get? "probabilities" with
  | some probabilities => ofNames doc probabilities
  | none =>
    match (doc.get? "types").bind Json.array? with
    | some types => types.foldlM addType ⟨[], [], []⟩
    | none => .error (.data .noProbabilities)

def ofJson (doc : Json) : Except Failure TuningData := do
  let mode ← modeOf doc
  let c ← contentsOf doc
  let singularity ← number? .singularity (doc.given? "singularity")
  let parameter ← number? .parameter (doc.given? "parameter")
  .ok ⟨singularity, parameter, c.probabilities, c.values, c.duplicated, mode⟩

def required (path : String) (t : Table) (name : String) : Except Failure (List String) :=
  ((t.column? name).map .ok).getD (.error (.data (.missingColumn path name)))

-- A column of a single number; none if it is not there.
def singleOf (t : Table) (name : String) : Except Failure (Option Float) :=
  match t.column? name with
  | some column => Column.single? name column
  | none => .ok none

def valuesOfTable (t : Table) : Numbers :=
  match t.column? "type", t.column? "value" with
  | some types, some values =>
    (types.zip (Column.cells values)).foldl
      (fun found (name, cell) => (cell.map fun c => found.put (.text name) c.toFloat).getD found) []
  | _, _ => []

def ofTable (path : String) (t : Table) : Except Failure TuningData := do
  let names ← required path t "constructor"
  let column ← required path t "probability"
  let _ ← required path t "singularity"
  let cells := Column.cells column
  let bad := (names.zip cells).filter fun (_, cell) => cell.isNone
  if !bad.isEmpty then .error (.data (.nonNumeric (bad.map (·.1))))
  let found := names.zip (cells.filterMap id)
  let probabilities := found.foldl (fun (ps : Numbers) (name, c) => ps.put (.text name) c.toFloat) []
  let singularity ← singleOf t "singularity"
  let parameter ← singleOf t "parameter"
  .ok ⟨singularity, parameter, probabilities, valuesOfTable t, (Assoc.repeated names).map .text, none⟩

def ofText (path : String) (format : Format) (text : String) : Except Failure TuningData :=
  match format with
  | .csv =>
    match Table.read? text with
    | some t => ofTable path t
    | none => .error (.data (.notTable path))
  | .json =>
    match Json.read? text with
    | none => .error (.data (.notDocument path))
    | some (.object fields) => ofJson (.object fields)
    | some _ => .error (.data (.notObject path))

def read (files : Files) (path : String) (asked : Option String) : Except Failure TuningData := do
  let path := FilePath.normalize path
  let format ← Format.ofFile path asked
  match files path with
  | .ok text => ofText path format text
  | .error fault => .error (.file fault path)

end TuningData

end BoltzmannSampling
