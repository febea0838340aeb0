import BoltzmannSampling.Table.Basic
import BoltzmannSampling.Text.Quoted

/-!
Writing tables as records of fields with commas between them, one a line. A field stands between double quotes if a
comma, a double quote or a line break occurs in it.
-/

namespace BoltzmannSampling

namespace Table

def isSpecial (c : Char) : Bool :=
  c == ',' || c == Text.doubleQuote || c == '\n' || c == '\r'

def encode (field : String) : String :=
  let cs := field.toList
  if cs.any isSpecial then
    let inner := cs.flatMap fun c => if c = Text.doubleQuote then [c, c] else [c]
    String.ofList (Text.doubleQuote :: inner ++ [Text.doubleQuote])
  else field

def record (fields : List String) : String :=
  Text.joined "," (fields.map encode) ++ "\n"

def print (t : Table) : String :=
  String.join (record t.header :: t.rows.map record)

end Table

end BoltzmannSampling
