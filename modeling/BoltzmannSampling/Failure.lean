import BoltzmannSampling.Json.Basic

/-!
Causes of failure, by stage, and their wording. Every stage gives back a failure instead of a half-built value;
`Failure.message` is the text for the user, absent where a cause has no wording of its own.
-/

namespace BoltzmannSampling

open Text (quoted joined)

inductive NameKind where
  | type
  | constructor
deriving DecidableEq, Repr

inductive Malformed where
  | typesMissing
  | typeEntry (found : Json)
  | constructorEntry (found typeName : Json)
  | annotationsEntry
  | typeName (found : Json)
  | constructorName (found : Json)
  | weightText (constructor : String) (found : Json)
  | weightValue (constructor : String) (found : Json)
  | atomSize (found : Json)
  | emptyReference
  | argument (found : Json)
  | argumentDocument (found : Json)
  | argumentToWrite (found : Json)
  | modifierOperand (modifier shown : String)
  | notType (found : Json)
  | notConstructor (typeName : String) (found : Json)
  | declaredKind (typeName : String) (found : Json)
  | annotationKey (found : Json)
  | annotationValue (key : String) (found : Json)

namespace Malformed

def message : Malformed → String
  | typesMissing => "A system document needs a 'types' list."
  | typeEntry v => "Malformed type entry " ++ v.literal ++ "."
  | constructorEntry v t => "Malformed constructor entry " ++ v.literal ++ " in type " ++ t.literal ++ "."
  | annotationsEntry => "'annotations' must be an object."
  | typeName v => "Type name must be a non-empty string, got " ++ v.literal ++ "."
  | constructorName v => "Constructor name must be a non-empty string, got " ++ v.literal ++ "."
  | weightText c v => "Constructor " ++ quoted c ++ " has a non-numeric weight " ++ v.literal ++ "."
  | weightValue c v => "Constructor " ++ quoted c ++ " needs a positive weight, got " ++ v.literal ++ "."
  | atomSize v => "Atom size must be a positive integer, got " ++ v.literal ++ "."
  | emptyReference => "Empty type reference."
  | argument v => "Unsupported constructor argument " ++ v.literal ++ "."
  | argumentDocument v => "Cannot decode argument " ++ v.literal ++ "."
  | argumentToWrite v => "Cannot encode argument " ++ v.literal ++ "."
  | modifierOperand m a => m ++ "(...) expects a type reference or an atom, got " ++ a ++ "."
  | notType v => "Expected a Type, got " ++ v.literal ++ "."
  | notConstructor t v => "Type " ++ quoted t ++ " holds a non-constructor " ++ v.literal ++ "."
  | declaredKind t k => "Type " ++ quoted t ++ " cannot be declared with kind " ++ k.literal ++ "."
  | annotationKey v => "Annotation keys must be strings, got " ++ v.literal ++ "."
  | annotationValue k v => "Annotation " ++ quoted k ++ " must be a string or a number, got " ++ v.literal ++ "."

end Malformed

inductive ModelFault where
  | noTypes
  | duplicate (kind : NameKind) (name : String)
  | unresolved (typeName constructor reference : String)
  | emptyType (typeName : String)
  | invalid (reason : Malformed)

namespace ModelFault

def message : ModelFault → String
  | noTypes => "A system needs at least one type."
  | duplicate .type n => "Duplicate type name " ++ quoted n ++ "."
  | duplicate .constructor n => "Duplicate constructor name " ++ quoted n ++ "."
  | unresolved t c r =>
    "Constructor " ++ quoted c ++ " of type " ++ quoted t ++ " references undeclared type " ++ quoted r ++ "."
  | emptyType t => "Type " ++ quoted t ++ " declares no constructors."
  | invalid reason => reason.message

end ModelFault

inductive SettingFault where
  | precision
  | maxiter
  | expectedSize
  | samples
  | lowerBound
  | bounds
deriving DecidableEq, Repr

namespace SettingFault

def message : SettingFault → String
  | precision => "precision must be > 0"
  | maxiter => "maxiter must be ≥ 1"
  | expectedSize => "expected_size must be > 0"
  | samples => "samples must be ≥ 0"
  | lowerBound => "lowerBound must be ≥ 0"
  | bounds => "lowerBound must not exceed upperBound"

end SettingFault

inductive AnnotationFault where
  | integer (key : String) (found : Json)
  | real (key : String) (found : Json)
  | setting (fault : SettingFault)

namespace AnnotationFault

def message : AnnotationFault → String
  | integer k v => "Annotation " ++ quoted k ++ " must be an integer, got " ++ v.literal ++ "."
  | real k v => "Annotation " ++ quoted k ++ " must be a number, got " ++ v.literal ++ "."
  | setting fault => fault.message

end AnnotationFault

inductive Flaw where
  | nonProductive
  | zeroSizeCycle
deriving DecidableEq, Repr

namespace Flaw

def description : Flaw → String
  | nonProductive => "admits no finite structure"
  | zeroSizeCycle => "lies on a cycle of size-0 productions"

end Flaw

inductive CheckFault where
  | illFounded (typeName : String) (flaw : Flaw)
  | warnings (messages : List String)

namespace CheckFault

def message : CheckFault → String
  | illFounded t flaw => "Ill-founded system: type " ++ quoted t ++ " " ++ flaw.description ++ "."
  | warnings ms => toString ms.length ++ " warning(s) treated as errors: " ++ joined "; " ms

end CheckFault

inductive SearchFault where
  | noSolutionAtZero
  | finiteClass
  | bracket (low high : Float) (precision : Number) (maxiter : Int)
  | noPositivePoint
  | noFixedPoint (z : Float)
  | goalTooSmall (goal : Number) (target : String)
  | rootSearch (iterations : Int)
  | value (typeName : String) (found : Float)
  | noTerm (typeName : String)

namespace SearchFault

def message : SearchFault → String
  | noSolutionAtZero => "The equations have no finite solution at z = 0; the system is not well-founded."
  | finiteClass => "No finite singularity found: the system describes a finite class."
  | bracket lo hi p n =>
    "Singularity bracket [" ++ Decimal.text lo ++ ", " ++ Decimal.text hi ++ "] did not shrink below precision " ++
      p.text ++ " within " ++ toString n ++ " iterations."
  | noPositivePoint => "No convergent tuning point above z = 0."
  | noFixedPoint z => "No fixed point at z = " ++ Decimal.text z ++ " below the singularity."
  | goalTooSmall g t =>
    "Expected size " ++ g.text ++ " of " ++ quoted t ++ " is below the smallest achievable expected size."
  | rootSearch n =>
    "Expected-size tuning did not converge: Failed to converge after " ++ toString n ++ " iterations."
  | value t v => "Type " ++ quoted t ++ " has generating-function value " ++ Decimal.text v ++ " at the tuning point."
  | noTerm t => "Type " ++ quoted t ++ " has no positive constructor term at the tuning point."

end SearchFault

inductive Quantity where
  | singularity
  | parameter
  | probability (name : Json)
  | value (name : Json)

namespace Quantity

def description : Quantity → String
  | singularity => "Singularity"
  | parameter => "Parameter"
  | probability n => "Probability of " ++ n.literal
  | value n => "Value of " ++ n.literal

end Quantity

-- The number of one cell of a table. A natural number stands in a column with numbers beyond the signed words.
inductive Cell where
  | int (value : Int)
  | natural (value : Nat)
  | float (value : Float)
  | bool (value : Bool)

namespace Cell

def literal : Cell → String
  | int i => "np.int64(" ++ toString i ++ ")"
  | natural n => "np.uint64(" ++ toString n ++ ")"
  | float x => "np.float64(" ++ Decimal.text x ++ ")"
  | bool b => if b then "np.True_" else "np.False_"

def number : Cell → Number
  | int i => .int i
  | natural n => .int n
  | float x => .float x
  | bool b => .int (if b then 1 else 0)

def toFloat (c : Cell) : Float :=
  match c.number with
  | .int i => Binary64.ofRatio (i < 0) i.natAbs 1
  | .float x => x

end Cell

inductive DataFault where
  | notDocument (path : String)
  | notObject (path : String)
  | notTable (path : String)
  | mode (found : Json)
  | probabilitiesEntry
  | valuesEntry
  | noProbabilities
  | notNumber (place : Quantity) (found : Json)
  | typeEntry (found : Json)
  | constructorEntry (found : Json)
  | severalValues (column : String) (found : List Cell)
  | missingColumn (path column : String)
  | nonNumeric (constructors : List String)
  | modeClash (found requested : String)
  | singularity (found : Option Float)
  | parameter (found : Float)
  | probability (constructor : String) (found : Float)
  | total (typeName : String) (found : Float)
  | unknownTypes (names : List String)
  | value (typeName : String) (found : Float)
  | vector (typeName : String)

namespace DataFault

def message : DataFault → String
  | notDocument p => p ++ ": not a JSON document."
  | notObject p => p ++ ": expected a JSON object."
  | notTable p => p ++ ": not a tuning table."
  | mode v => "Unknown tuning mode " ++ v.literal ++ "."
  | probabilitiesEntry => "'probabilities' must be an object keyed by constructor name."
  | valuesEntry => "'values' must be an object keyed by type name."
  | noProbabilities => "A tuning document needs a 'probabilities' object or a 'types' list."
  | notNumber q v => q.description ++ " must be a number, got " ++ v.literal ++ "."
  | typeEntry v => "Malformed type entry " ++ v.literal ++ "."
  | constructorEntry v => "Malformed constructor entry " ++ v.literal ++ "."
  | severalValues c vs =>
    "Column " ++ quoted c ++ " holds more than one value: [" ++ joined ", " (vs.map Cell.literal) ++ "]."
  | missingColumn p c => p ++ ": missing column " ++ quoted c ++ "."
  | nonNumeric cs => "Non-numeric probability for " ++ joined ", " cs ++ "."
  | modeClash m r =>
    "Tuning data was computed in " ++ quoted m ++ " mode but " ++ quoted r ++
      " was requested; rational systems tune to different points in the two modes."
  | singularity v =>
    "The singularity must be present and positive, got " ++ (v.map Decimal.text).getD "None" ++ "."
  | parameter v => "The tuning parameter must be positive, got " ++ Decimal.text v ++ "."
  | probability c v =>
    "Probability of " ++ quoted c ++ " must be finite and non-negative, got " ++ Decimal.text v ++ "."
  | total t v => "Probabilities of type " ++ quoted t ++ " sum to " ++ Decimal.text v ++ ", not 1."
  | unknownTypes ns => "Values given for unknown types: " ++ joined ", " ns ++ "."
  | value t v => "Value of type " ++ quoted t ++ " must be finite and positive, got " ++ Decimal.text v ++ "."
  | vector t => "No probability vector matching the constructors of " ++ quoted t ++ "."

end DataFault

inductive TuningFault where
  | notConverged (reason : SearchFault)
  | mismatch (missing extra duplicated : List String)
  | invalidData (reason : DataFault)

namespace TuningFault

def listed (heading : String) (names : List String) : List String :=
  if names.isEmpty then [] else [heading ++ " " ++ joined ", " names]

def message : TuningFault → String
  | notConverged reason => reason.message
  | mismatch missing extra duplicated =>
    "Tuning data does not match the system constructors: " ++
      joined "; " (listed "missing" missing ++ listed "unknown" extra ++ listed "duplicated" duplicated) ++ "."
  | invalidData reason => reason.message

end TuningFault

inductive RequestFault where
  | mode (found : Json)
  | systemType (found : Json)
  | format (found : String)
  | setting (fault : SettingFault)
  | target (found : String)
  | start (found : Option String)
  | auxiliaryStart (found : String)
  | negativeLower (found : Number)
  | bounds (lower upper : Number)
  | maxAttempts
  | negativeCount (found : Int)
  | negativeEntropy
  | invalidDocument

namespace RequestFault

def message : RequestFault → String
  | mode v => v.literal ++ " is not a valid Mode"
  | systemType v => v.literal ++ " is not a valid SystemType"
  | format f => "Unknown tuning-file format " ++ quoted f ++ " (expected 'json' or 'csv')."
  | setting fault => fault.message
  | target t => "Unknown tuning target type " ++ quoted t ++ "."
  | start s => "Unknown start type " ++ (s.map quoted).getD "None" ++ "."
  | auxiliaryStart s => "Start type " ++ quoted s ++ " is an auxiliary sequence/set type."
  | negativeLower n => "lower must be ≥ 0, got " ++ n.text ++ "."
  | bounds lo hi => "lower (" ++ lo.text ++ ") must not exceed upper (" ++ hi.text ++ ")."
  | maxAttempts => "max_attempts must be ≥ 1"
  | negativeCount n => "n must be ≥ 0, got " ++ toString n ++ "."
  | negativeEntropy => "expected non-negative integer"
  | invalidDocument => "<invalid JSON>"

end RequestFault

inductive SamplingFault where
  | attemptsExceeded (attempts : Nat) (lower upper : Number)

namespace SamplingFault

def message : SamplingFault → String
  | attemptsExceeded n lo hi =>
    "No structure of size in [" ++ lo.text ++ ", " ++ hi.text ++ "] after " ++ toString n ++
      " attempts; the tuning and the size window are probably mismatched."

end SamplingFault

inductive FileFault where
  | missing
  | denied
  | notFolder
  | folder
  | noFolder
deriving DecidableEq, Repr

namespace FileFault

def message (name : String) : FileFault → String
  | missing => "[Errno 2] No such file or directory: " ++ quoted name
  | denied => "[Errno 13] Permission denied: " ++ quoted name
  | notFolder => "[Errno 20] Not a directory: " ++ quoted name
  | folder => "[Errno 21] Is a directory: " ++ quoted name
  | noFolder => "Cannot save file into a non-existent directory: '" ++ name ++ "'"

end FileFault

-- Everything that can go wrong. The causes without a message concern values for which an operation is not defined at
-- all: a value of another kind, an integer beyond the range of doubles, an absent name, a computation given up.
inductive Failure where
  | model (fault : ModelFault)
  | settings (fault : AnnotationFault)
  | check (fault : CheckFault)
  | tuning (fault : TuningFault)
  | sampling (fault : SamplingFault)
  | request (fault : RequestFault)
  | file (fault : FileFault) (name : String)
  | singular
  | wrongKind
  | tooLarge
  | absent
  | unfinished

namespace Failure

def message? : Failure → Option String
  | model fault => some fault.message
  | settings fault => some fault.message
  | check fault => some fault.message
  | tuning fault => some fault.message
  | sampling fault => some fault.message
  | request fault => some fault.message
  | file fault name => some (fault.message name)
  | singular => some "Singular matrix"
  | wrongKind | tooLarge | absent | unfinished => none

def malformed (reason : Malformed) : Failure := .model (.invalid reason)

def data (reason : DataFault) : Failure := .tuning (.invalidData reason)

def search (reason : SearchFault) : Failure := .tuning (.notConverged reason)

end Failure

end BoltzmannSampling
