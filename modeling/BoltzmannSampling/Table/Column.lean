import BoltzmannSampling.Failure
import BoltzmannSampling.Text.Numeral

/-!
Numbers in the cells of a column. A column of integers holds integers, one of decimals the nearest doubles, one of
truth values truth values. In any other column the cells that are no numbers are missing, and the numbers are read
digit by digit in doubles, which keeps seventeen digits at most.
-/

namespace BoltzmannSampling

namespace Column

-- A numeral: the digits before and after the point, and the exponent.
structure Numeral where
  negative : Bool
  whole : List Nat
  fraction : List Nat
  exponent : Int
  isInteger : Bool

def digit? (c : Char) : Option Nat := if c.isDigit then some (c.toNat - 48) else none

def digitRun (cs : List Char) : List Nat × List Char :=
  ((cs.takeWhile Char.isDigit).filterMap digit?, cs.dropWhile Char.isDigit)

def exponent? (cs : List Char) : Option Int :=
  let (negative, body) := Text.splitSign cs
  match digitRun body with
  | (d :: ds, []) => some (if negative then -(Text.ofDigits (d :: ds) : Int) else Text.ofDigits (d :: ds))
  | _ => none

-- The numeral of a cell: an optional sign, digits with an optional point, an optional exponent, blanks around.
def numeral? (cell : String) : Option Numeral :=
  let (negative, body) := Text.splitSign (Text.trimBy Text.isPlainBlank cell.toList)
  let (whole, rest) := digitRun body
  let (fraction, rest, point) :=
    match rest with
    | '.' :: rest => let (f, rest) := digitRun rest; (f, rest, true)
    | rest => ([], rest, false)
  if whole.isEmpty && fraction.isEmpty then none
  else
    match rest with
    | [] => some ⟨negative, whole, fraction, 0, !point⟩
    | c :: rest =>
      if c = 'e' ∨ c = 'E' then (exponent? rest).map fun e => ⟨negative, whole, fraction, e, false⟩ else none

def infinity? (cell : String) : Option Float :=
  let (negative, body) := Text.splitSign cell.toList
  let name := Text.nameOf body
  if name = "inf" ∨ name = "infinity" then some (Text.signed negative (1 / 0)) else none

def int? (cell : String) : Option Int :=
  match numeral? cell with
  | some ⟨negative, whole, _, _, true⟩ =>
    some (if negative then -(Text.ofDigits whole : Int) else Text.ofDigits whole)
  | _ => none

def nearest? (cell : String) : Option Float :=
  match infinity? cell with
  | some x => some x
  | none =>
    match numeral? cell with
    | some n =>
      let x := Binary64.ofDecimal n.negative (Text.ofDigits (n.whole ++ n.fraction)) (n.exponent - n.fraction.length)
      if x.isFinite then some x else none
    | none => none

-- How many digits are read one by one, counted from the first.
def mostDigits : Nat := 17

def powerOfTen (k : Nat) : Float := Binary64.ofDecimal false 1 k

-- A double times a power of ten, with two divisions where one would need too large a divisor.
def scaled (x : Float) (exponent : Int) : Float :=
  if 0 ≤ exponent then x * powerOfTen exponent.toNat
  else if -308 ≤ exponent then x / powerOfTen (-exponent).toNat
  else x / powerOfTen (-308 - exponent).toNat / powerOfTen 308

def approximate? (cell : String) : Option Float :=
  match infinity? cell with
  | some x => some x
  | none =>
    match numeral? cell with
    | some n =>
      let digits := (n.whole ++ n.fraction).take mostDigits
      let dropped := n.whole.length - mostDigits
      let places := digits.length - n.whole.length
      let magnitude := digits.foldl (fun (x : Float) d => x * 10 + Binary64.ofRatio false d 1) 0
      let exponent := n.exponent + dropped - places
      let x := scaled (Text.signed n.negative magnitude) exponent
      if exponent ≤ 308 && x.isFinite then some x else none
    | none => none

def truth? (cell : String) : Option Bool :=
  if ["True", "TRUE", "true"].contains cell then some true
  else if ["False", "FALSE", "false"].contains cell then some false
  else none

def isSigned (i : Int) : Bool := -(twoTo 63) ≤ i && i < twoTo 63

-- The integers of a column, all of them signed words or all natural ones.
def integers? (column : List String) : Option (List Cell) :=
  match column.mapM int? with
  | some is =>
    if is.all isSigned then some (is.map .int)
    else if is.all fun i => 0 ≤ i && i < twoTo 64 then some (is.map fun i => .natural i.toNat)
    else none
  | none => none

-- The doubles of a column of decimals, not all of which are integers.
def decimals? (column : List String) : Option (List Cell) :=
  if column.all fun cell => (int? cell).isSome then none
  else (column.mapM nearest?).map (·.map .float)

def cells (column : List String) : List (Option Cell) :=
  match integers? column with
  | some found => found.map some
  | none =>
    match decimals? column with
    | some found => found.map some
    | none =>
      match column.mapM truth? with
      | some found => found.map fun b => some (.bool b)
      | none => column.map fun cell => (approximate? cell).map .float

def distinct : List Cell → List Cell
  | [] => []
  | c :: rest => c :: (distinct rest).filter fun d => !d.number.same c.number

def sorted (found : List Cell) : List Cell :=
  found.mergeSort fun a b => Number.le a.number b.number

-- The one number of a column, if it has any; it must not have two.
def single? (name : String) (column : List String) : Except Failure (Option Float) :=
  match distinct ((cells column).filterMap id) with
  | [] => .ok none
  | [c] => .ok (some c.toFloat)
  | several => .error (.data (.severalValues name (sorted several)))

end Column

end BoltzmannSampling
