import BoltzmannSampling.Json.Basic
import BoltzmannSampling.Text.Numeral

/-!
Reading documents. Beyond the standard grammar, `NaN`, `Infinity` and `-Infinity` are numbers. A number without
point and exponent is an integer of any size. Every reader takes the characters left and gives back those that
follow; the nesting is bounded by a fuel that the length of the text supplies.
-/

namespace BoltzmannSampling

namespace Json

namespace Reader

def isSpace (c : Char) : Bool := c == ' ' || c == '\n' || c == '\t' || c == '\r'

def skipSpace (cs : List Char) : List Char := cs.dropWhile isSpace

def isDigit (c : Char) : Bool := '0' ≤ c && c ≤ '9'

def after? : List Char → List Char → Option (List Char)
  | [], cs => some cs
  | w :: ws, c :: cs => if w == c then after? ws cs else none
  | _ :: _, [] => none

def hexDigit? (c : Char) : Option Nat :=
  if isDigit c then some (c.toNat - 48)
  else if 'a' ≤ c && c ≤ 'f' then some (c.toNat - 87)
  else if 'A' ≤ c && c ≤ 'F' then some (c.toNat - 55)
  else none

def unit? : List Char → Option (Nat × List Char)
  | a :: b :: c :: d :: rest =>
    match hexDigit? a, hexDigit? b, hexDigit? c, hexDigit? d with
    | some a, some b, some c, some d => some (((a * 16 + b) * 16 + c) * 16 + d, rest)
    | _, _, _, _ => none
  | _ => none

-- The character of a code unit; a unit that belongs to half a pair has none of its own.
def charOf (n : Nat) : Char :=
  if 0xd800 ≤ n ∧ n < 0xe000 then Char.ofNat 0xfffd else Char.ofNat n

-- The character of four digits after `u`; two units in the ranges of pairs make one character.
def escaped? (cs : List Char) : Option (Char × List Char) :=
  match unit? cs with
  | none => none
  | some (high, rest) =>
    if 0xd800 ≤ high ∧ high < 0xdc00 then
      match (after? [Text.backslash, 'u'] rest).bind unit? with
      | some (low, rest') =>
        if 0xdc00 ≤ low ∧ low < 0xe000 then
          some (Char.ofNat (0x10000 + (high - 0xd800) * 0x400 + (low - 0xdc00)), rest')
        else some (charOf high, rest)
      | none => some (charOf high, rest)
    else some (charOf high, rest)

def shortEscape? (c : Char) : Option Char :=
  if c = Text.doubleQuote ∨ c = Text.backslash ∨ c = '/' then some c
  else if c = 'b' then some (Char.ofNat 8)
  else if c = 'f' then some (Char.ofNat 12)
  else if c = 'n' then some '\n'
  else if c = 'r' then some '\r'
  else if c = 't' then some '\t'
  else none

-- The characters up to the closing quote, after those found, in reverse. Controls must be escaped.
def quoted? : Nat → List Char → List Char → Option (String × List Char)
  | 0, _, _ => none
  | _ + 1, _, [] => none
  | fuel + 1, found, c :: rest =>
    if c = Text.doubleQuote then some (String.ofList found.reverse, rest)
    else if c = Text.backslash then
      match rest with
      | [] => none
      | 'u' :: digits =>
        match escaped? digits with
        | some (d, rest) => quoted? fuel (d :: found) rest
        | none => none
      | e :: rest =>
        match shortEscape? e with
        | some d => quoted? fuel (d :: found) rest
        | none => none
    else if c.toNat < 0x20 then none
    else quoted? fuel (c :: found) rest

-- The digits of a number's whole part: a lone zero, or digits that do not start with one.
def whole? : List Char → Option (List Char × List Char)
  | '0' :: rest => some (['0'], rest)
  | cs =>
    let digits := cs.takeWhile isDigit
    if digits.isEmpty then none else some (digits, cs.dropWhile isDigit)

def fraction : List Char → List Char × List Char
  | '.' :: rest =>
    let digits := rest.takeWhile isDigit
    if digits.isEmpty then ([], '.' :: rest) else (digits, rest.dropWhile isDigit)
  | cs => ([], cs)

def exponent (cs : List Char) : Option Int × List Char :=
  match cs with
  | c :: rest =>
    if c = 'e' ∨ c = 'E' then
      let (negative, body) := Text.splitSign rest
      let digits := body.takeWhile isDigit
      if digits.isEmpty then (none, cs)
      else
        let n : Int := Text.ofDigits (digits.map fun d => d.toNat - 48)
        (some (if negative then -n else n), body.dropWhile isDigit)
    else (none, cs)
  | [] => (none, [])

def number? (cs : List Char) : Option (Number × List Char) :=
  let (negative, body) :=
    match cs with
    | '-' :: rest => (true, rest)
    | cs => (false, cs)
  match after? "Infinity".toList body with
  | some rest => some (.float (Text.signed negative (1 / 0)), rest)
  | none =>
    match whole? body with
    | none => none
    | some (whole, rest) =>
      let value (digits : List Char) : Nat := Text.ofDigits (digits.map fun d => d.toNat - 48)
      let (places, rest') := fraction rest
      match places, exponent rest' with
      | [], (none, _) =>
        let n : Int := value whole
        some (.int (if negative then -n else n), rest)
      | _, (e, rest'') =>
        some (.float (Binary64.ofDecimal negative (value (whole ++ places)) (e.getD 0 - places.length)), rest'')

mutual

def value? : Nat → List Char → Option (Json × List Char)
  | 0, _ => none
  | fuel + 1, cs =>
    match skipSpace cs with
    | [] => none
    | c :: rest =>
      if c = Text.doubleQuote then (quoted? (rest.length + 1) [] rest).map fun (s, rest) => (.text s, rest)
      else if c = '[' then
        match skipSpace rest with
        | ']' :: rest => some (.array [], rest)
        | rest => items? fuel [] rest
      else if c = '\x7b' then
        match skipSpace rest with
        | '\x7d' :: rest => some (.object [], rest)
        | rest => fields? fuel [] rest
      else if c = 'n' then (after? "ull".toList rest).map fun rest => (.null, rest)
      else if c = 't' then (after? "rue".toList rest).map fun rest => (.bool true, rest)
      else if c = 'f' then (after? "alse".toList rest).map fun rest => (.bool false, rest)
      else if c = 'N' then (after? "aN".toList rest).map fun rest => (.float (0 / 0), rest)
      else (number? (c :: rest)).map fun (n, rest) => (.number n, rest)

def items? : Nat → List Json → List Char → Option (Json × List Char)
  | 0, _, _ => none
  | fuel + 1, found, cs =>
    match value? fuel cs with
    | none => none
    | some (item, rest) =>
      match skipSpace rest with
      | ',' :: rest => items? fuel (item :: found) rest
      | ']' :: rest => some (.array (item :: found).reverse, rest)
      | _ => none

def fields? : Nat → List (String × Json) → List Char → Option (Json × List Char)
  | 0, _, _ => none
  | fuel + 1, found, cs =>
    match skipSpace cs with
    | [] => none
    | c :: rest =>
      if c = Text.doubleQuote then
        match quoted? (rest.length + 1) [] rest with
        | none => none
        | some (name, rest) =>
          match skipSpace rest with
          | ':' :: rest =>
            match value? fuel rest with
            | none => none
            | some (value, rest) =>
              match skipSpace rest with
              | ',' :: rest => fields? fuel ((name, value) :: found) rest
              | '\x7d' :: rest => some (.object ((name, value) :: found).reverse, rest)
              | _ => none
          | _ => none
      else none

end

end Reader

def read? (s : String) : Option Json :=
  let cs := s.toList
  match Reader.value? (cs.length + 1) cs with
  | some (doc, rest) => if (Reader.skipSpace rest).isEmpty then some doc else none
  | none => none

end Json

end BoltzmannSampling
