import BoltzmannSampling.Specification.Basic

/-!
From declarations to a system. The checks come in a fixed order: names and kinds of all declarations, then the
constructors of each with the operands of their modifiers, then clashes with the names of auxiliary types, then
repeated constructors and references through the whole table, and the annotations last. The table itself does not
depend on the checks: every declared type keeps its constructors, with a reference in place of each modifier, and
the auxiliary types follow in the order of their first use.
-/

namespace BoltzmannSampling

-- A type as it is declared. A value that is no constructor may stand among its constructors.
structure Declaration where
  name : String
  constructors : List (Except Json (Constructor Arg))
  kind : Json
  element : Option String
  elementSize : Nat

namespace Declaration

-- A plain type with given constructors; its name must be a text that is not empty.
def named (name : Json) (constructors : List (Except Json (Constructor Arg))) : Except Failure Declaration :=
  match name with
  | .text n =>
    if n.isEmpty then .error (.malformed (.typeName name))
    else .ok ⟨n, constructors, .text "plain", none, 0⟩
  | _ => .error (.malformed (.typeName name))

def isPlain (d : Declaration) : Bool :=
  match d.kind with
  | .text k => k == "plain"
  | _ => false

def proper (d : Declaration) : List (Constructor Arg) :=
  d.constructors.filterMap Except.toOption

end Declaration

namespace Arg

-- The symbol that stands for an argument in the table: itself, or a reference to the type of its modifier.
def desugar : Arg → Symbol
  | plain s => s
  | many m e => .ref (TypeDef.auxiliaryName m e)

def auxiliary? : Arg → Option TypeDef
  | plain _ => none
  | many m e => some (.auxiliary m e)

end Arg

namespace Constructor

def desugar (c : Constructor Arg) : Constructor Symbol :=
  ⟨c.name, c.args.map Arg.desugar, c.weight, c.positive⟩

end Constructor

namespace Specification

-- Types of which only the first of each name is kept.
def firstOfEachName : List TypeDef → List TypeDef
  | [] => []
  | t :: rest => t :: (firstOfEachName rest).filter (·.name != t.name)

-- The auxiliary types of some declarations, in the order of their first use.
def auxiliaries (ds : List Declaration) : List TypeDef :=
  firstOfEachName (ds.flatMap fun d => d.proper.flatMap fun c => c.args.filterMap Arg.auxiliary?)

def declaredType (d : Declaration) : TypeDef :=
  ⟨d.name, d.proper.map Constructor.desugar, .declared d.element d.elementSize⟩

def table (ds : List Declaration) : List TypeDef :=
  ds.map declaredType ++ auxiliaries ds

-- The declarations among what stands in their places, with names that differ, all of them plain.
def checkNames : List String → List (Except Json Declaration) → Except Failure (List Declaration)
  | _, [] => .ok []
  | _, .error found :: _ => .error (.malformed (.notType found))
  | seen, .ok d :: rest =>
    if seen.contains d.name then .error (.model (.duplicate .type d.name))
    else if !d.isPlain then .error (.malformed (.declaredKind d.name d.kind))
    else
      match checkNames (d.name :: seen) rest with
      | .ok ds => .ok (d :: ds)
      | .error e => .error e

-- A modifier over a type repeats a declared one.
def checkOperand (users : List String) (d : Declaration) (c : Constructor Arg) (a : Arg) : Except Failure Unit :=
  match a with
  | .many _ (.ref t) => if users.contains t then .ok () else .error (.model (.unresolved d.name c.name t))
  | _ => .ok ()

-- Every declaration has constructors and nothing else in their places.
def checkDeclaration (users : List String) (d : Declaration) : Except Failure Unit :=
  if d.constructors.isEmpty then .error (.model (.emptyType d.name))
  else
    d.constructors.forM fun entry =>
      match entry with
      | .error found => .error (.malformed (.notConstructor d.name found))
      | .ok c => c.args.forM (checkOperand users d c)

def checkAuxiliary (users : List String) (t : TypeDef) : Except Failure Unit :=
  if users.contains t.name then .error (.model (.duplicate .type t.name)) else .ok ()

-- Constructor names differ, and references name types of the table.
def checkProductions (names : List String) :
    List String → List (TypeDef × Constructor Symbol) → Except Failure Unit
  | _, [] => .ok ()
  | seen, (t, c) :: rest =>
    if seen.contains c.name then .error (.model (.duplicate .constructor c.name))
    else
      match c.refs.find? (!names.contains ·) with
      | some r => .error (.model (.unresolved t.name c.name r))
      | none => checkProductions names (c.name :: seen) rest

def checkAnnotation (entry : String × Json) : Except Failure Unit :=
  match entry.2 with
  | .text _ | .number _ | .bool _ => .ok ()
  | found => .error (.malformed (.annotationValue entry.1 found))

def ofDeclarations (entries : List (Except Json Declaration)) (annotations : List (String × Json)) :
    Except Failure Specification := do
  if entries.isEmpty then .error (.model .noTypes)
  let ds ← checkNames [] entries
  let users := ds.map Declaration.name
  ds.forM (checkDeclaration users)
  (auxiliaries ds).forM (checkAuxiliary users)
  let types := table ds
  let s : Specification := ⟨types, (users.head?).getD "", annotations⟩
  checkProductions (types.map TypeDef.name) [] s.productions
  annotations.forM checkAnnotation
  .ok s

def annotationOf (entry : Json × Json) : Except Failure (String × Json) :=
  match entry.1 with
  | .text key => ( checkAnnotation (key, entry.2)).map fun _ => (key, entry.2)
  | found => .error (.malformed (.annotationKey found))

-- The same for annotations whose keys may be other values than texts.
def ofMapping (entries : List (Except Json Declaration)) (annotations : List (Json × Json)) :
    Except Failure Specification := do
  let s ← ofDeclarations entries []
  let annotations ← annotations.mapM annotationOf
  .ok { s with annotations }

end Specification

end BoltzmannSampling
