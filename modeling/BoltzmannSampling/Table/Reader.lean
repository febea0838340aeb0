import BoltzmannSampling.Table.Basic
import BoltzmannSampling.Text.Quoted

/-!
Tables written as records of fields with commas between them. A field may stand between double quotes, inside which
a double quote is written twice and everything else stands for itself. Blank lines are skipped. The first record is
the header; a record that is too short is filled up with empty fields.
-/

namespace BoltzmannSampling

namespace Table

-- Where in a field the scan is: before its first character, in plain text, between quotes, after a quote that may
-- close the field.
inductive Spot where
  | start
  | plain
  | quoted
  | closed
deriving DecidableEq

-- A scan: the current field in reverse, the fields of the current record and the records so far, last first.
structure Scan where
  spot : Spot
  field : List Char
  fields : List String
  records : List (List String)

namespace Scan

def begin : Scan := ⟨.start, [], [], []⟩

def push (s : Scan) (spot : Spot) (c : Char) : Scan :=
  { s with spot, field := c :: s.field }

def endField (s : Scan) : Scan :=
  { s with spot := .start, field := [], fields := String.ofList s.field.reverse :: s.fields }

def isBlank (s : Scan) : Bool :=
  s.spot != .closed && s.fields.isEmpty && s.field.all fun c => c == ' ' || c == '\t'

def endRecord (s : Scan) : Scan :=
  if s.isBlank then { s with spot := .start, field := [] }
  else
    let s := s.endField
    { s with fields := [], records := s.fields.reverse :: s.records }

def unquoted (s : Scan) (c : Char) : Scan :=
  if c = ',' then s.endField
  else if c = '\n' ∨ c = '\r' then s.endRecord
  else s.push .plain c

def step (s : Scan) (c : Char) : Scan :=
  match s.spot with
  | .start => if c = Text.doubleQuote then { s with spot := .quoted } else s.unquoted c
  | .plain => s.unquoted c
  | .quoted => if c = Text.doubleQuote then { s with spot := .closed } else s.push .quoted c
  | .closed => if c = Text.doubleQuote then s.push .quoted c else s.unquoted c

-- The records of a text that has ended; `none` if a quote is still open.
def finish (s : Scan) : Option (List (List String)) :=
  if s.spot = .quoted then none else some s.endRecord.records.reverse

end Scan

def records? (text : List Char) : Option (List (List String)) :=
  (text.foldl Scan.step Scan.begin).finish

def pad (width : Nat) (record : List String) : List String :=
  record ++ List.replicate (width - record.length) ""

-- The table of a header and records. The first record may be longer than the header, and gives the width that no
-- other may exceed; what it has more at its front are labels of the rows, not cells.
def ofRecords (header : List String) (rows : List (List String)) : Option Table :=
  let width := max header.length ((rows.head?.map List.length).getD 0)
  if rows.any (width < ·.length) then none
  else some ⟨header, rows.map fun r => (pad width r).drop (width - header.length)⟩

def byteOrderMark : Char := Char.ofNat 0xfeff

-- The table of a text; `none` if a quote is not closed, a row is too long, or there is no header.
def read? (text : String) : Option Table :=
  let cs := text.toList
  let body := if cs.head? = some byteOrderMark then cs.tail else cs
  match records? body with
  | some (header :: rows) => ofRecords header rows
  | _ => none

end Table

end BoltzmannSampling
