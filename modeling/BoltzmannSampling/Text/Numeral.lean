import BoltzmannSampling.Number.Binary64
import BoltzmannSampling.Text.Digit

/-!
Numbers written by people: digits of any script, single underscores between digits, blanks around. `readInt?`
takes integers, `readFloat?` decimals with an optional point and exponent, and the names of the infinities and
of the number that is none.
-/

namespace BoltzmannSampling

namespace Text

-- Integers of more digits than this are refused.
def longestInteger : Nat := 4300

def splitSign : List Char → Bool × List Char
  | '-' :: rest => (true, rest)
  | '+' :: rest => (false, rest)
  | cs => (false, cs)

-- A run of digits, an underscore being allowed between two of them, and what follows. The digits read so far come
-- first, in reverse.
def digitRun : List Nat → List Char → List Nat × List Char
  | found, [] => (found.reverse, [])
  | found, '_' :: c :: rest =>
    match found, digit? c with
    | _ :: _, some d => digitRun (d :: found) rest
    | _, _ => (found.reverse, '_' :: c :: rest)
  | found, c :: rest =>
    match digit? c with
    | some d => digitRun (d :: found) rest
    | none => (found.reverse, c :: rest)

def ofDigits (digits : List Nat) : Nat :=
  digits.foldl (fun n d => 10 * n + d) 0

-- The blanks that may surround a numeral; a text with characters beyond ASCII has more of them.
def aroundNumeral (cs : List Char) : Char → Bool :=
  if cs.all (·.toNat < 0x80) then isPlainBlank else isBlank

def readInt? (s : String) : Option Int :=
  let cs := s.toList
  let (negative, body) := splitSign (trimBy (aroundNumeral cs) cs)
  match digitRun [] body with
  | (d :: ds, []) =>
    if longestInteger < (d :: ds).length then none
    else
      let n : Int := ofDigits (d :: ds)
      some (if negative then -n else n)
  | _ => none

def nameOf (cs : List Char) : String :=
  String.ofList (cs.map Char.toLower)

def signed (negative : Bool) (x : Float) : Float :=
  if negative then -x else x

def exponent? : List Char → Option Int
  | [] => some 0
  | c :: rest =>
    if c = 'e' ∨ c = 'E' then
      let (negative, body) := splitSign rest
      match digitRun [] body with
      | (d :: ds, []) =>
        let n : Int := ofDigits (d :: ds)
        some (if negative then -n else n)
      | _ => none
    else none

-- The digits before and after the point, one of which at least is there, and the exponent.
def decimal? (negative : Bool) (body : List Char) : Option Float :=
  let (whole, rest) := digitRun [] body
  let (fraction, rest) :=
    match rest with
    | '.' :: rest => digitRun [] rest
    | rest => ([], rest)
  if whole.isEmpty && fraction.isEmpty then none
  else
    (exponent? rest).map fun e =>
      Binary64.ofDecimal negative (ofDigits (whole ++ fraction)) (e - fraction.length)

-- A decimal, an infinity or the number that is none, with an optional sign and blanks around.
def readFloat? (s : String) : Option Float :=
  let cs := s.toList
  let (negative, body) := splitSign (trimBy (aroundNumeral cs) cs)
  let name := nameOf body
  if name = "inf" ∨ name = "infinity" then some (signed negative (1 / 0))
  else if name = "nan" then some (signed negative (0 / 0))
  else decimal? negative body

end Text

end BoltzmannSampling
