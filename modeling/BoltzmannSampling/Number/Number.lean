import BoltzmannSampling.Number.Decimal

/-!
Numbers as documents and settings hold them: integers of any size, and doubles. The two are compared by value,
and an integer stays an integer when it is shown.
-/

namespace BoltzmannSampling

inductive Number where
  | int (value : Int)
  | float (value : Float)

namespace Number

instance : Inhabited Number := ⟨.int 0⟩

def text : Number → String
  | .int i => toString i
  | .float x => Decimal.text x

-- The double nearest to a number; `none` for an integer beyond the range of doubles.
def toFloat? : Number → Option Float
  | .int i => Binary64.ofInt? i
  | .float x => some x

-- The order of an integer and a double by value; `none` if the double is not a number.
def compareIntFloat (i : Int) (x : Float) : Option Ordering :=
  match Binary64.ofFloat? x with
  | some b =>
    let (n, d) := b.toRatio
    some (compare (i * d) n)
  | none => if x.isNaN then none else some (if x < 0 then .gt else .lt)

-- The order of two numbers by value; `none` if one of them is not a number.
def compare? : Number → Number → Option Ordering
  | .int i, .int j => some (compare i j)
  | .int i, .float y => compareIntFloat i y
  | .float x, .int j => (compareIntFloat j x).map Ordering.swap
  | .float x, .float y => if x < y then some .lt else if y < x then some .gt else if x == y then some .eq else none

def lt (a b : Number) : Bool := a.compare? b == some .lt

def le (a b : Number) : Bool := a.compare? b == some .lt || a.compare? b == some .eq

-- Equality by value: `1` and `1.0` are one number.
def same (a b : Number) : Bool := a.compare? b == some .eq

-- The greatest integer not above the number; `none` for an infinity and for a double that is no number.
def floor? : Number → Option Int
  | .int i => some i
  | .float x => (Binary64.ofFloat? x).map Binary64.floor

end Number

end BoltzmannSampling
