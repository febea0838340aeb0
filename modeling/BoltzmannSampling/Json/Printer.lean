import BoltzmannSampling.Json.Basic

/-!
Printing documents: one item to a line, two more blanks for each level, and ASCII only. Every character beyond
ASCII is written by the code units of a pair or by one unit.
-/

namespace BoltzmannSampling

namespace Json

namespace Printer

def unit (n : Nat) : List Char := Text.backslash :: 'u' :: Text.hex 4 n

def escape (c : Char) : List Char :=
  if c = Text.doubleQuote ∨ c = Text.backslash then [Text.backslash, c]
  else if c = '\n' then [Text.backslash, 'n']
  else if c = '\r' then [Text.backslash, 'r']
  else if c = '\t' then [Text.backslash, 't']
  else if c = Char.ofNat 8 then [Text.backslash, 'b']
  else if c = Char.ofNat 12 then [Text.backslash, 'f']
  else if 0x20 ≤ c.toNat ∧ c.toNat < 0x7f then [c]
  else if c.toNat < 0x10000 then unit c.toNat
  else
    let n := c.toNat - 0x10000
    unit (0xd800 + n / 0x400) ++ unit (0xdc00 + n % 0x400)

def quoted (s : String) : String :=
  String.ofList (Text.doubleQuote :: s.toList.flatMap escape ++ [Text.doubleQuote])

-- Doubles that are not finite have the names that the reader knows.
def number : Number → String
  | .int i => toString i
  | .float x => if x.isFinite then Decimal.text x else if x.isNaN then "NaN" else if x < 0 then "-Infinity" else "Infinity"

def newline (level : Nat) : String :=
  String.ofList ('\n' :: List.replicate (2 * level) ' ')

def block (level : Nat) (first last : String) (items : List String) : String :=
  if items.isEmpty then first ++ last
  else first ++ newline (level + 1) ++ Text.joined ("," ++ newline (level + 1)) items ++ newline level ++ last

-- A document whose first line stands on a line of a given level.
def render (level : Nat) : Json → String
  | .null => "null"
  | .bool b => if b then "true" else "false"
  | .number n => number n
  | .text s => quoted s
  | .array items => block level "[" "]" (items.attach.map fun ⟨item, _⟩ => render (level + 1) item)
  | .object fields =>
    let shown := fields.attach.map fun ⟨(name, value), _⟩ => (name, quoted name ++ ": " ++ render (level + 1) value)
    block level "\x7b" "\x7d" ((Assoc.ofFields shown).map (·.2))
termination_by doc => sizeOf doc
decreasing_by
  · have := List.sizeOf_lt_of_mem ‹_›
    simp_wf
    omega
  · have := List.sizeOf_lt_of_mem ‹_›
    simp_wf
    simp at this
    omega

end Printer

def print (doc : Json) : String :=
  Printer.render 0 doc ++ "\n"

end Json

end BoltzmannSampling
