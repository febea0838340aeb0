import BoltzmannSampling.Specification.Declaration

/-!
Systems as documents. An argument is `"@"` for the unit atom, `{"atom": k}` for one of size `k`, `"_"` for the
unit of size zero, a type by its name, and `{"seq": a}` or `{"set": a}` for a modifier. Writing leaves the
auxiliary types out and puts the modifiers back in their places.
-/

namespace BoltzmannSampling

namespace Atom

def toJson (a : Atom) : Json :=
  if a.size = 1 then .text "@" else .object [("atom", .nat a.size)]

end Atom

namespace Symbol

def toJson : Symbol → Json
  | ref t => .text t
  | atom a => a.toJson
  | epsilon => .text "_"

end Symbol

namespace Arg

def toJson : Arg → Json
  | plain s => s.toJson
  | many m e => .object [(m.field, e.symbol.toJson)]

def entryToJson : Except Json Arg → Except Failure Json
  | .ok a => .ok a.toJson
  | .error found => .error (.malformed (.argumentToWrite found))

-- The argument of a document. An object must have one field, which says what the argument is.
def ofJson (doc : Json) : Except Failure Arg :=
  match doc with
  | .text s => .ok (if s = "@" then .plain (.atom .unit) else if s = "_" then .plain .epsilon else .plain (.ref s))
  | .object fields =>
    match _found : Assoc.ofFields fields with
    | [(name, value)] =>
      if name = "atom" then (Atom.ofSize value).map fun a => .plain (.atom a)
      else if name = "seq" then do ofModifier .sequence (.ok (← ofJson value))
      else if name = "set" then do ofModifier .set (.ok (← ofJson value))
      else .error (.malformed (.argumentDocument doc))
    | _ => .error (.malformed (.argumentDocument doc))
  | _ => .error (.malformed (.argumentDocument doc))
termination_by sizeOf doc
decreasing_by
  all_goals
    have := List.sizeOf_lt_of_mem (Assoc.mem_of_mem_ofFields (_found ▸ List.mem_singleton.2 rfl))
    simp at this
    simp_wf
    omega

end Arg

namespace Specification

-- The modifier that a reference to an auxiliary type stands for; other symbols stand for themselves.
def surface (s : Specification) (symbol : Symbol) : Arg :=
  match symbol with
  | .ref name =>
    match s.type? name with
    | some ⟨_, _, .auxiliary m e⟩ => .many m e
    | _ => .plain symbol
  | _ => .plain symbol

def constructorFields (s : Specification) (c : Constructor Symbol) : List (String × Json) :=
  [("name", .text c.name), ("args", .array (c.args.map fun a => (s.surface a).toJson)), ("weight", .float c.weight)]

def toJson (s : Specification) : Json :=
  .object [("annotations", .object s.annotations),
    ("types", .array (s.userTypes.map fun t =>
      .object [("name", .text t.name),
        ("constructors", .array (t.constructors.map fun c => .object (s.constructorFields c)))]))]

-- The parts under a name of a document, none if the name is missing; a value without parts is of the wrong kind.
def partsOf (doc : Json) (name : String) : Except Failure (List Json) :=
  match doc.get? name with
  | none => .ok []
  | some found =>
    match found.elements? with
    | some parts => .ok parts
    | none => .error .wrongKind

def constructorOfJson (typeName doc : Json) : Except Failure (Constructor Arg) :=
  match doc.get? "name" with
  | none => .error (.malformed (.constructorEntry doc typeName))
  | some name => do
    let args ← (← partsOf doc "args").mapM Arg.ofJson
    Constructor.declare name (args.map .ok) ((doc.get? "weight").getD (.float 1))

def declarationOfJson (doc : Json) : Except Failure Declaration :=
  match doc.get? "name" with
  | none => .error (.malformed (.typeEntry doc))
  | some name => do
    let constructors ← (← partsOf doc "constructors").mapM (constructorOfJson name)
    Declaration.named name (constructors.map .ok)

-- The annotations of a document: none if they are missing or blank.
def annotationsOfJson (doc : Json) : Except Failure (List (String × Json)) :=
  match doc.get? "annotations" with
  | none => .ok []
  | some found =>
    if found.isBlank then .ok []
    else
      match found.entries? with
      | some entries => .ok entries
      | none => .error (.malformed .annotationsEntry)

def ofJson (doc : Json) : Except Failure Specification :=
  match (doc.get? "types").bind Json.array? with
  | none => .error (.malformed .typesMissing)
  | some types => do
    let declarations ← types.mapM declarationOfJson
    let annotations ← annotationsOfJson doc
    ofDeclarations (declarations.map .ok) annotations

end Specification

end BoltzmannSampling
