import BoltzmannSampling.Failure
import BoltzmannSampling.Text.Numeral

/-!
Constructors and their arguments. An `Arg` is what a specification writes, modifiers included; a `Symbol` is what
the type table holds after every modifier has become a reference. A constructor's own size is the sum of its
atoms, and its references are the types of its arguments, in order and with repetitions.
-/

namespace BoltzmannSampling

structure Atom where
  size : Nat
  positive : 0 < size
deriving DecidableEq

inductive Element where
  | ref (typeName : String)
  | atom (a : Atom)
deriving DecidableEq

-- Zero or more copies of an element: in order, or unordered.
inductive Modifier where
  | sequence
  | set
deriving DecidableEq, Repr

-- An argument of a constructor of the table: a type by name, an atom, or the unit of size zero.
inductive Symbol where
  | ref (typeName : String)
  | atom (a : Atom)
  | epsilon
deriving DecidableEq

inductive Arg where
  | plain (s : Symbol)
  | many (m : Modifier) (e : Element)
deriving DecidableEq

namespace Atom

def unit : Atom := ⟨1, Nat.one_pos⟩

def text (a : Atom) : String :=
  if a.size = 1 then "@" else "@" ++ toString a.size

def ofSize (found : Json) : Except Failure Atom :=
  match found with
  | .number (.int i) =>
    if h : 0 < i.toNat then .ok ⟨i.toNat, h⟩ else .error (.malformed (.atomSize found))
  | _ => .error (.malformed (.atomSize found))

end Atom

namespace Element

def text : Element → String
  | ref t => t
  | atom a => a.text

def symbol : Element → Symbol
  | ref t => .ref t
  | atom a => .atom a

def type? : Element → Option String
  | ref t => some t
  | atom _ => none

def atomSize : Element → Nat
  | ref _ => 0
  | atom a => a.size

end Element

namespace Modifier

def word : Modifier → String
  | sequence => "Seq"
  | set => "Set"

def kind : Modifier → String
  | sequence => "sequence"
  | set => "set"

def field : Modifier → String
  | sequence => "seq"
  | set => "set"

end Modifier

namespace Symbol

def text : Symbol → String
  | ref t => t
  | atom a => a.text
  | epsilon => "_"

def literal : Symbol → String
  | ref t => "Ref(type=" ++ Text.quoted t ++ ")"
  | atom a => "Atom(size=" ++ toString a.size ++ ")"
  | epsilon => "Epsilon()"

def size : Symbol → Nat
  | atom a => a.size
  | _ => 0

def type? : Symbol → Option String
  | ref t => some t
  | _ => none

-- The element that a symbol can be; the unit of size zero is none.
def element? : Symbol → Option Element
  | ref t => some (.ref t)
  | atom a => some (.atom a)
  | epsilon => none

end Symbol

namespace Arg

def text : Arg → String
  | plain s => s.text
  | many m e => m.word ++ "(" ++ e.text ++ ")"

def literal : Arg → String
  | plain s => s.literal
  | many .sequence e => "Seq(arg=" ++ e.symbol.literal ++ ")"
  | many .set e => "MSet(arg=" ++ e.symbol.literal ++ ")"

def symbol? : Arg → Option Symbol
  | plain s => some s
  | many _ _ => none

-- The argument that a shorthand stands for: the unit atom, the unit of size zero, or a type by name.
def ofShorthand (found : Json) : Except Failure Arg :=
  match found with
  | .text s =>
    if s = "@" then .ok (.plain (.atom .unit))
    else if s = "_" then .ok (.plain .epsilon)
    else if s.isEmpty then .error (.malformed .emptyReference)
    else .ok (.plain (.ref s))
  | _ => .error (.malformed (.argument found))

def ofEntry : Except Json Arg → Except Failure Arg
  | .ok a => .ok a
  | .error found => ofShorthand found

-- A modifier takes a type or an atom only.
def ofModifier (m : Modifier) (operand : Except Json Arg) : Except Failure Arg := do
  let a ← ofEntry operand
  match a.symbol?.bind Symbol.element? with
  | some e => .ok (.many m e)
  | none => .error (.malformed (.modifierOperand m.word a.literal))

end Arg

def isWeight (w : Float) : Bool := w.isFinite && 0 < w

theorem isWeight_one : isWeight 1 = true := by decide

structure Constructor (α : Type) where
  name : String
  args : List α
  weight : Float
  positive : isWeight weight = true

namespace Constructor

def size (c : Constructor Symbol) : Nat := total (c.args.map Symbol.size)

def refs (c : Constructor Symbol) : List String := c.args.filterMap Symbol.type?

def targets (c : Constructor Symbol) : List String := c.refs.eraseDups

def textWith {α : Type} (shown : α → String) (c : Constructor α) : String :=
  let inner := Text.joined ", " (c.args.map shown)
  if inner.isEmpty then c.name else c.name ++ "(" ++ inner ++ ")"

def text (c : Constructor Symbol) : String := c.textWith Symbol.text

-- The arguments of a declared constructor that are symbols as they stand; these alone give its size and its
-- references before the modifiers have become types.
def plain (c : Constructor Arg) : Constructor Symbol :=
  ⟨c.name, c.args.filterMap Arg.symbol?, c.weight, c.positive⟩

def literal (c : Constructor Arg) : String :=
  let args :=
    match c.args with
    | [a] => a.literal ++ ","
    | as => Text.joined ", " (as.map Arg.literal)
  "Constructor(name=" ++ Text.quoted c.name ++ ", args=(" ++ args ++ "), weight=" ++ Decimal.text c.weight ++ ")"

-- The weight that a document gives: a number, a truth value, or the text of a number.
def weightOf (name : String) (found : Json) : Except Failure { w : Float // isWeight w = true } :=
  let read : Except Failure Float :=
    match found with
    | .number n => (n.toFloat?.map .ok).getD (.error .tooLarge)
    | .bool b => .ok (if b then 1 else 0)
    | .text s => ((Text.readFloat? s).map .ok).getD (.error (.malformed (.weightText name found)))
    | _ => .error (.malformed (.weightText name found))
  match read with
  | .ok w => if h : isWeight w = true then .ok ⟨w, h⟩ else .error (.malformed (.weightValue name found))
  | .error e => .error e

-- A constructor from its parts. The name is looked at first, then the arguments, then the weight.
def declare (name : Json) (args : List (Except Json Arg)) (weight : Json) : Except Failure (Constructor Arg) :=
  match name with
  | .text n =>
    if n.isEmpty then .error (.malformed (.constructorName name))
    else do
      let args ← args.mapM Arg.ofEntry
      let weight ← weightOf n weight
      .ok ⟨n, args, weight.val, weight.property⟩
  | _ => .error (.malformed (.constructorName name))

end Constructor

end BoltzmannSampling
