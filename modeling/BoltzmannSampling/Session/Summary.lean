import BoltzmannSampling.Session.Basic

/-!
The summary of a session in plain text.
-/

namespace BoltzmannSampling

namespace Session

def rule : String := "========================================"

def tuningLine (mode : Mode) (e : Entry) : String :=
  mode.text ++ ": ρ = " ++ Decimal.rounded 12 e.tuned.singularity ++ ", z = " ++ Decimal.rounded 12 e.tuned.parameter

-- The class and the types of the system, the findings of the check, and the latest tunings.
def summaryLines (s : Session) : List String :=
  [rule, "Boltzmann Brain Summary", rule, "System type: " ++ s.checked.classification.text,
    "Types: " ++ Text.joined ", " (s.system.userTypes.map (·.name)), "", "Diagnostics:"] ++
  (if s.checked.findings.isEmpty then [" - (none)"] else s.checked.findings.map fun f => " - " ++ f.text) ++
  [""] ++
  (if s.latest.isEmpty then ["Not tuned yet."] else s.latest.map fun (mode, e) => tuningLine mode e)

def summary (s : Session) : String := Text.joined "\n" s.summaryLines

end Session

end BoltzmannSampling
