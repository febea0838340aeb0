/-!
Tables of texts: a header and rows as wide as it.
-/

namespace BoltzmannSampling

structure Table where
  header : List String
  rows : List (List String)

namespace Table

def column? (t : Table) (name : String) : Option (List String) :=
  (t.header.findIdx? (· == name)).map fun i => t.rows.map fun r => r.getD i ""

end Table

end BoltzmannSampling
