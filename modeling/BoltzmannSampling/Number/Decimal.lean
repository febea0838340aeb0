import BoltzmannSampling.Number.Binary64

/-!
Decimal texts of double-precision numbers: the fewest digits that read back to the same double, and a given
number of significant digits. Digits are found in exact arithmetic on natural numbers; a `NumeralStyle` says
how they are laid out.
-/

namespace BoltzmannSampling

structure Decimal where
  coefficient : Nat
  scale : Int
deriving Repr, DecidableEq

-- Numbers whose first digit stands at an exponent in `[least, most)` are written positionally, the others with an
-- exponent of at least two digits. With `pointZero`, a positional integer ends in a point and a zero.
structure NumeralStyle where
  least : Int
  most : Int
  pointZero : Bool
deriving Repr, DecidableEq

namespace Decimal

def reaches (num den : Nat) (k : Int) : Bool :=
  if 0 ≤ k then den * tenTo k.toNat ≤ num else den ≤ num * tenTo (-k).toNat

-- The exponent of the first digit of `num / den`: the greatest `k` with `10 ^ k ≤ num / den`. The binary logarithm
-- leaves three candidates.
def leadingExponent (num den : Nat) : Int :=
  let guess := Int.fdiv (((num.log2 : Int) - (den.log2 : Int)) * 30103) 100000
  if reaches num den (guess + 1) then guess + 1
  else if reaches num den guess then guess
  else guess - 1

def inUnits (num den : Nat) (k : Int) : Nat × Nat :=
  if 0 ≤ k then (num, den * tenTo k.toNat) else (num * tenTo (-k).toNat, den)

def significant (num den count : Nat) : Decimal :=
  let scale := leadingExponent num den + 1 - count
  let (n, d) := inUnits num den scale
  let coefficient := Binary64.roundDiv n d
  if coefficient = tenTo count then ⟨tenTo (count - 1), scale + 1⟩ else ⟨coefficient, scale⟩

-- The real numbers that round to one double: between `low / den` and `high / den`, the ends included when `closed`;
-- `value / den` is the double itself.
structure Neighbourhood where
  low : Nat
  value : Nat
  high : Nat
  den : Nat
  closed : Bool

-- The ends lie half a unit away, or a quarter below a power of two, where the doubles get denser.
def Neighbourhood.of (x : Binary64) : Neighbourhood :=
  let quarter := x.exponent - 2
  let num := if 0 ≤ quarter then twoTo quarter.toNat else 1
  let den := if 0 ≤ quarter then 1 else twoTo (-quarter).toNat
  let below := if x.mantissa = Binary64.hidden ∧ Binary64.leastExponent < x.exponent then 1 else 2
  let four := 4 * x.mantissa
  ⟨(four - below) * num, four * num, (four + 2) * num, den, x.mantissa % 2 == 0⟩

namespace Neighbourhood

def contains (n : Neighbourhood) (c : Decimal) : Bool :=
  let point := c.coefficient * n.den * tenTo c.scale.toNat
  let unit := tenTo (-c.scale).toNat
  if n.closed then n.low * unit ≤ point && point ≤ n.high * unit
  else n.low * unit < point && point < n.high * unit

-- The multiple of `10 ^ scale` nearest to the double among its two neighbours there that read back to it.
def onGrid? (n : Neighbourhood) (scale : Int) : Option Decimal :=
  let (num, den) := inUnits n.value n.den scale
  let lower : Decimal := ⟨num / den, scale⟩
  let upper : Decimal := ⟨num / den + 1, scale⟩
  match n.contains lower, n.contains upper with
  | true, true =>
    let rest := 2 * (num % den)
    if rest < den ∨ (rest = den ∧ lower.coefficient % 2 = 0) then some lower else some upper
  | true, false => some lower
  | false, true => some upper
  | false, false => none

-- The first grid with a hit, from `scale` downwards through `left` grids.
def firstHit? (n : Neighbourhood) : Nat → Int → Option Decimal
  | 0, _ => none
  | left + 1, scale => (n.onGrid? scale).or (n.firstHit? left (scale - 1))

end Neighbourhood

-- The decimal of fewest digits that reads back to a positive double; seventeen digits always suffice.
def shortest (x : Binary64) : Decimal :=
  let n := Neighbourhood.of x
  let lead := leadingExponent n.value n.den
  (n.firstHit? 17 lead).getD (significant n.value n.den 17)

-- The digits of a decimal, and the exponent at which the first of them stands.
def spelled (d : Decimal) : List Char × Int :=
  let digits := (toString d.coefficient).toList
  (digits, d.scale + digits.length - 1)

def trimmed (digits : List Char) : List Char :=
  (digits.reverse.dropWhile (· == '0')).reverse

def zeros (n : Nat) : List Char := List.replicate n '0'

def exponentText (e : Int) : List Char :=
  let digits := (toString e.natAbs).toList
  (if e < 0 then '-' else '+') :: zeros (2 - digits.length) ++ digits

def scientificText (digits : List Char) (lead : Int) : List Char :=
  digits.take 1 ++ (if digits.length ≤ 1 then [] else '.' :: digits.drop 1) ++ 'e' :: exponentText lead

def positionalText (style : NumeralStyle) (digits : List Char) (lead : Int) : List Char :=
  if lead < 0 then '0' :: '.' :: zeros (-lead - 1).toNat ++ digits
  else
    let whole := lead.toNat + 1
    if digits.length ≤ whole then
      digits ++ zeros (whole - digits.length) ++ (if style.pointZero then ['.', '0'] else [])
    else digits.take whole ++ '.' :: digits.drop whole

end Decimal

namespace NumeralStyle

def layout (style : NumeralStyle) (digits : List Char) (lead : Int) : List Char :=
  if style.least ≤ lead ∧ lead < style.most then Decimal.positionalText style digits lead
  else Decimal.scientificText digits lead

-- Shortest texts are positional between `0.0001` and `10 ^ 16` and keep a fraction.
def shortest : NumeralStyle := ⟨-4, 16, true⟩

-- A rounded text with up to `count` digits is positional as long as these reach the units.
def rounded (count : Nat) : NumeralStyle := ⟨-4, count, false⟩

end NumeralStyle

namespace Decimal

def nonFinite (x : Float) : String :=
  if x.isNaN then "nan" else if x < 0 then "-inf" else "inf"

def text (x : Float) : String :=
  match Binary64.ofFloat? x with
  | none => nonFinite x
  | some b =>
    let body :=
      if b.mantissa = 0 then NumeralStyle.shortest.layout ['0'] 0
      else
        let (digits, lead) := spelled (shortest b)
        NumeralStyle.shortest.layout (trimmed digits) lead
    String.ofList (if b.negative then '-' :: body else body)

def rounded (count : Nat) (x : Float) : String :=
  match Binary64.ofFloat? x with
  | none => nonFinite x
  | some b =>
    let (n, d) := b.toRatio
    let body :=
      if b.mantissa = 0 then ['0']
      else
        let (digits, lead) := spelled (significant n.natAbs d count)
        (NumeralStyle.rounded count).layout (trimmed digits) lead
    String.ofList (if b.negative then '-' :: body else body)

-- A double with exactly `count` significant digits and an exponent; zeros have no sign.
def scientific (count : Nat) (x : Float) : String :=
  match Binary64.ofFloat? x with
  | none => nonFinite x
  | some b =>
    let (n, d) := b.toRatio
    if b.mantissa = 0 then String.ofList (scientificText (zeros count) 0)
    else
      let (digits, lead) := spelled (significant n.natAbs d count)
      let body := scientificText digits lead
      String.ofList (if b.negative then '-' :: body else body)

end Decimal

end BoltzmannSampling
