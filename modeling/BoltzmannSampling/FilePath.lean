import BoltzmannSampling.Text.Quoted

/-!
Names of files: components between slashes.
-/

namespace BoltzmannSampling

namespace FilePath

def components (name : String) : List String :=
  (name.splitOn "/").filter fun c => !c.isEmpty && c != "."

-- The root that a name starts from: none, one slash, or exactly two.
def root (name : String) : String :=
  match name.toList with
  | '/' :: '/' :: '/' :: _ => "/"
  | '/' :: '/' :: _ => "//"
  | '/' :: _ => "/"
  | _ => ""

def normalize (name : String) : String :=
  let text := root name ++ Text.joined "/" (components name)
  if text.isEmpty then "." else text

def parent (name : String) : String :=
  let text := root name ++ Text.joined "/" (components name).dropLast
  if text.isEmpty then "." else text

-- The last component from its last point on, unless the point is its first or last character.
def suffix (name : String) : String :=
  let cs := ((components name).getLast?.getD "").toList
  let after := (cs.reverse.takeWhile (· != '.')).reverse
  let before := cs.length - after.length
  if after.isEmpty || before < 2 then "" else "." ++ String.ofList after

end FilePath

end BoltzmannSampling
