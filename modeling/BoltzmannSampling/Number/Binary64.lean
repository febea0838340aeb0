import BoltzmannSampling.Number.Natural

/-!
Double-precision numbers as exact dyadic rationals. A finite double is a sign and `mantissa · 2 ^ exponent`;
`ofRatio` goes back, from a quotient of natural numbers to the nearest double, ties to the even mantissa.
-/

namespace BoltzmannSampling

structure Binary64 where
  negative : Bool
  mantissa : Nat
  exponent : Int
deriving Repr, DecidableEq

namespace Binary64

-- The bits of a mantissa below `2 ^ 52` are subnormal; the others carry a leading one.
def hidden : Nat := twoTo 52

def leastExponent : Int := -1074

def greatestExponent : Int := 971

-- The exact value of a double; `none` for an infinity and for a number that is none.
def ofFloat? (x : Float) : Option Binary64 :=
  let bits := x.toBits.toNat
  let negative := bits / twoTo 63 == 1
  let biased := bits / hidden % 2048
  let fraction := bits % hidden
  if biased = 2047 then none
  else if biased = 0 then some ⟨negative, fraction, leastExponent⟩
  else some ⟨negative, fraction + hidden, (biased : Int) - 1075⟩

-- The double with a given sign, mantissa below `2 ^ 53` and exponent, where the mantissa is at least `2 ^ 52` or the
-- exponent is the least; infinity beyond the greatest exponent.
def pack (negative : Bool) (mantissa : Nat) (exponent : Int) : Float :=
  let sign := if negative then twoTo 63 else 0
  let magnitude :=
    if exponent > greatestExponent then 2047 * hidden
    else if mantissa < hidden then mantissa
    else (exponent + 1075).toNat * hidden + (mantissa - hidden)
  Float.ofBits (UInt64.ofNat (sign + magnitude))

-- The natural number nearest to `num / den`, a half going to the even neighbour.
def roundDiv (num den : Nat) : Nat :=
  let floor := num / den
  let rest := 2 * (num % den)
  if rest < den then floor
  else if den < rest then floor + 1
  else if floor % 2 = 0 then floor else floor + 1

-- `num / den` in units of `2 ^ exponent`, as a quotient of natural numbers.
def inUnits (num den : Nat) (exponent : Int) : Nat × Nat :=
  if 0 ≤ exponent then (num, den * twoTo exponent.toNat) else (num * twoTo (-exponent).toNat, den)

-- The exponent of the double nearest to `num / den`, before a carry.
def exponentOf (num den : Nat) : Int :=
  let guess := max ((num.log2 : Int) - (den.log2 : Int) - 53) leastExponent
  let (n, d) := inUnits num den guess
  if n < d * twoTo 53 then guess else guess + 1

def ofRatio (negative : Bool) (num den : Nat) : Float :=
  if num = 0 then pack negative 0 leastExponent
  else
    let exponent := exponentOf num den
    let (n, d) := inUnits num den exponent
    let mantissa := roundDiv n d
    if mantissa < twoTo 53 then pack negative mantissa exponent
    else pack negative hidden (exponent + 1)

-- The double nearest to `± digits · 10 ^ scale`. Scales far outside the range of doubles are cut short, so that no
-- huge power is formed.
def ofDecimal (negative : Bool) (digits : Nat) (scale : Int) : Float :=
  let places : Int := digits.log2 / 3 + 1
  if digits = 0 then ofRatio negative 0 1
  else if 400 < scale then pack negative hidden (greatestExponent + 1)
  else if scale + places < -400 then ofRatio negative 0 1
  else if 0 ≤ scale then ofRatio negative (digits * tenTo scale.toNat) 1
  else ofRatio negative digits (tenTo (-scale).toNat)

def toRatio (x : Binary64) : Int × Nat :=
  let sign : Int := if x.negative then -1 else 1
  if 0 ≤ x.exponent then (sign * x.mantissa * twoTo x.exponent.toNat, 1)
  else (sign * x.mantissa, twoTo (-x.exponent).toNat)

def floor (x : Binary64) : Int :=
  let (n, d) := x.toRatio
  Int.fdiv n d

def toInt? (x : Binary64) : Option Int :=
  let (n, d) := x.toRatio
  if n % d = 0 then some (n / d) else none

end Binary64

def Binary64.ofInt? (i : Int) : Option Float :=
  let x := ofRatio (i < 0) i.natAbs 1
  if x.isFinite then some x else none

-- The integer that the double nearest to a natural number stands for: 53 significant bits, a tie to even.
def Binary64.roundNat (n : Nat) : Nat :=
  match ofFloat? (ofRatio false n 1) with
  | some x => x.floor.toNat
  | none => n

end BoltzmannSampling
