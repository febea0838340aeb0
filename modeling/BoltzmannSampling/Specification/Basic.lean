import BoltzmannSampling.Specification.Constructor

/-!
Systems: a table of types, each with its constructors. The declared types come first; after them stand the
auxiliary types that sequences and sets have become, where a sequence of `T` is
`Seq(T) = Seq(T).Nil(_) | Seq(T).Cons(T, Seq(T))`.
-/

namespace BoltzmannSampling

-- Where a type of the table comes from: a declaration, which may carry an element and a size as a note, or a modifier
-- over an element.
inductive Origin where
  | declared (element : Option String) (elementSize : Nat)
  | auxiliary (m : Modifier) (e : Element)
deriving DecidableEq

structure TypeDef where
  name : String
  constructors : List (Constructor Symbol)
  origin : Origin

namespace TypeDef

def isAuxiliary (t : TypeDef) : Bool :=
  match t.origin with
  | .declared .. => false
  | .auxiliary .. => true

def kind (t : TypeDef) : String :=
  match t.origin with
  | .declared .. => "plain"
  | .auxiliary m _ => m.kind

def element? (t : TypeDef) : Option String :=
  match t.origin with
  | .declared e _ => e
  | .auxiliary _ e => e.type?

def elementSize (t : TypeDef) : Nat :=
  match t.origin with
  | .declared _ n => n
  | .auxiliary _ e => e.atomSize

def text (t : TypeDef) : String :=
  t.name ++ " = " ++ Text.joined " | " (t.constructors.map Constructor.text)

def auxiliaryName (m : Modifier) (e : Element) : String :=
  m.word ++ "(" ++ e.text ++ ")"

-- The type that a modifier over an element becomes: nothing, or the element followed by the type again.
def auxiliary (m : Modifier) (e : Element) : TypeDef :=
  let name := auxiliaryName m e
  ⟨name, [⟨name ++ ".Nil", [.epsilon], 1, by decide⟩, ⟨name ++ ".Cons", [e.symbol, .ref name], 1, by decide⟩],
    .auxiliary m e⟩

end TypeDef

-- A resolved specification. The annotations are texts, numbers and truth values by name.
structure Specification where
  types : List TypeDef
  initial : String
  annotations : List (String × Json)

namespace Specification

def names (s : Specification) : List String := s.types.map TypeDef.name

def type? (s : Specification) (name : String) : Option TypeDef :=
  s.types.find? (·.name == name)

def index? (s : Specification) (name : String) : Option Nat :=
  s.types.findIdx? (·.name == name)

def userTypes (s : Specification) : List TypeDef := s.types.filter (!·.isAuxiliary)

def productions (s : Specification) : List (TypeDef × Constructor Symbol) :=
  s.types.flatMap fun t => t.constructors.map fun c => (t, c)

def constructorNames (s : Specification) : List String := s.productions.map (·.2.name)

def owners (s : Specification) : List (String × String) :=
  s.productions.map fun (t, c) => (c.name, t.name)

def owner? (s : Specification) (constructor : String) : Option String :=
  Assoc.get? s.owners constructor

def text (s : Specification) : String :=
  Text.joined "\n" (s.types.map TypeDef.text)

def literal (s : Specification) : String :=
  "System(types=" ++ (Json.array (s.names.map .text)).literal ++ ", annotations=" ++
    (Json.object s.annotations).literal ++ ")"

end Specification

end BoltzmannSampling
