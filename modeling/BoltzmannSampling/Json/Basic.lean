import BoltzmannSampling.Assoc
import BoltzmannSampling.Number.Number
import BoltzmannSampling.Text.Quoted

/-!
Documents. Integers stay apart from doubles, and an object keeps its fields in the order in which they were
written, repeated names included; `entries` gives every name once, with the value written last.
-/

namespace BoltzmannSampling

inductive Json where
  | null
  | bool (value : Bool)
  | number (value : Number)
  | text (value : String)
  | array (items : List Json)
  | object (fields : List (String × Json))

namespace Json

instance : Inhabited Json := ⟨.null⟩

def int (i : Int) : Json := .number (.int i)

def nat (n : Nat) : Json := .number (.int n)

def float (x : Float) : Json := .number (.float x)

def entries? : Json → Option (List (String × Json))
  | .object fields => some (Assoc.ofFields fields)
  | _ => none

def get? (doc : Json) (name : String) : Option Json :=
  doc.entries?.bind (Assoc.get? · name)

-- The value of a name in an object, unless it is missing or null.
def given? (doc : Json) (name : String) : Option Json :=
  match doc.get? name with
  | some .null => none
  | other => other

def text? : Json → Option String
  | .text s => some s
  | _ => none

def array? : Json → Option (List Json)
  | .array items => some items
  | _ => none

-- Null, false, zero and all that is empty count as absent.
def isBlank : Json → Bool
  | .null => true
  | .bool b => !b
  | .number n => n.same (.int 0)
  | .text s => s.isEmpty
  | .array items => items.isEmpty
  | .object fields => fields.isEmpty

-- What a document yields one after the other: the items of an array, the characters of a text, the names of an
-- object; `none` for the others.
def elements? : Json → Option (List Json)
  | .array items => some items
  | .text s => some (s.toList.map fun c => .text (String.singleton c))
  | .object fields => some ((Assoc.ofFields fields).map fun (name, _) => .text name)
  | _ => none

def literal : Json → String
  | .null => "None"
  | .bool b => if b then "True" else "False"
  | .number n => n.text
  | .text s => Text.quoted s
  | .array items => "[" ++ Text.joined ", " (items.attach.map fun ⟨item, _⟩ => literal item) ++ "]"
  | .object fields =>
    let shown := fields.attach.map fun ⟨(name, value), _⟩ => (name, Text.quoted name ++ ": " ++ literal value)
    "\x7b" ++ Text.joined ", " ((Assoc.ofFields shown).map (·.2)) ++ "\x7d"
termination_by doc => sizeOf doc
decreasing_by
  · have := List.sizeOf_lt_of_mem ‹_›
    simp_wf
    omega
  · have := List.sizeOf_lt_of_mem ‹_›
    simp_wf
    simp at this
    omega

end Json

end BoltzmannSampling
