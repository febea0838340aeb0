import BoltzmannSampling.Text.Quoted

/-!
Texts on a console that takes markup. A tag is a bracketed text without further brackets that begins with a small
letter or one of `#`, `/` and `@`; tags in a message are shown as they are written. A backslash in front of any
other bracket is not shown, and a single one at the end is shown twice. Control characters that move the cursor are
left out, and tabs are filled up with blanks.
-/

namespace BoltzmannSampling

namespace Text

def startsTag (c : Char) : Bool := ('a' ≤ c && c ≤ 'z') || c == '#' || c == '/' || c == '@'

-- Whether the text behind an opening bracket is that of a tag.
def isTag : List Char → Bool
  | c :: rest => startsTag c && (rest.dropWhile fun c => c != '[' && c != ']').head? == some ']'
  | [] => false

-- A text without the backslashes in front of brackets that open no tag.
def bracketed : List Char → List Char
  | c :: '[' :: rest =>
    if c == backslash && !isTag rest then '[' :: bracketed rest else c :: '[' :: bracketed rest
  | c :: rest => c :: bracketed rest
  | [] => []

-- A single backslash at the end, written twice.
def closed (cs : List Char) : List Char :=
  match cs.reverse with
  | [c] => if c == backslash then [c, c] else cs
  | c :: d :: _ => if c == backslash && d != backslash then cs ++ [c] else cs
  | [] => cs

-- The control characters that are not shown: the bell, and those that move the cursor within a line or by one.
def movesCursor (c : Char) : Bool := [7, 8, 11, 12, 13].contains c.toNat

def tabWidth : Nat := 8

-- A text with blanks in place of tabs, from a column on.
def expanded : Nat → List Char → List Char
  | _, [] => []
  | column, c :: rest =>
    if c == '\t' then
      let blanks := tabWidth - column % tabWidth
      List.replicate blanks ' ' ++ expanded (column + blanks) rest
    else c :: expanded (if c == '\n' then 0 else column + 1) rest

def shown (column : Nat) (s : String) : String :=
  String.ofList (expanded column ((bracketed (closed s.toList)).filter (!movesCursor ·)))

end Text

end BoltzmannSampling
