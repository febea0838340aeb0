import BoltzmannSampling.Text.Digit

/-!
The words of a command line. An option is written by its letter behind a dash, or by its name or a unique beginning
of it behind two. Its value is the next word, or is attached behind an equals sign, or directly to the letter.
Letters of options without values may be written together, with one that has a value at the end. Behind a word of
two dashes no word is an option.
-/

namespace BoltzmannSampling

structure OptionForm (α : Type) where
  option : α
  letter : Option Char
  name : String
  hasValue : Bool

inductive Usage where
  | help
  | misuse
deriving DecidableEq, Repr

namespace Usage

def status : Usage → Nat
  | help => 0
  | misuse => 2

end Usage

-- A word by its form: an option by name with the value behind an equals sign, an option by letter with what follows
-- the letter, a dashed word that is no option, the separator of two dashes, or a plain word.
inductive CommandWord (α : Type) where
  | plain (text : String)
  | separator
  | unknown
  | named (form : OptionForm α) (value : Option (List Char))
  | lettered (form : OptionForm α) (attached : List Char)

namespace CommandWord

variable {α : Type}

-- Whether the text behind a dash is that of a negative number: digits, at most one point, and a digit at the end.
def isNumeral (cs : List Char) : Bool :=
  let digit (c : Char) := (Text.digit? c).isSome
  match cs.dropWhile digit with
  | [] => !cs.isEmpty
  | '.' :: fraction => !fraction.isEmpty && fraction.all digit
  | _ => false

-- A word behind a dash that names no option: a negative number and a text with blanks are plain.
def plainOrUnknown (text : String) (body : List Char) : CommandWord α :=
  if isNumeral body || body.contains ' ' then .plain text else .unknown

def byName (forms : List (OptionForm α)) (text : String) (body : List Char) : Except Usage (CommandWord α) :=
  let name := body.takeWhile (· != '=')
  let value := (body.dropWhile (· != '=')).tail?
  match forms.find? (·.name.toList == body) with
  | some form => .ok (.named form none)
  | none =>
    match forms.find? (·.name.toList == name) with
    | some form => .ok (.named form value)
    | none =>
      match forms.filter fun f => name.isPrefixOf f.name.toList with
      | [form] => .ok (.named form value)
      | [] => .ok (plainOrUnknown text ('-' :: body))
      | _ => .error .misuse

def byLetter (forms : List (OptionForm α)) (text : String) (letter : Char) (rest : List Char) : CommandWord α :=
  match forms.find? (·.letter == some letter) with
  | some form => .lettered form rest
  | none => plainOrUnknown text (letter :: rest)

def ofText (forms : List (OptionForm α)) (text : String) : Except Usage (CommandWord α) :=
  match text.toList with
  | ['-', '-'] => .ok .separator
  | '-' :: '-' :: body => byName forms text body
  | '-' :: letter :: rest => .ok (byLetter forms text letter rest)
  | _ => .ok (.plain text)

def ofTexts (forms : List (OptionForm α)) : List String → Except Usage (List (CommandWord α))
  | [] => .ok []
  | text :: rest =>
    match ofText forms text with
    | .error e => .error e
    | .ok .separator => .ok (.separator :: rest.map .plain)
    | .ok word => (ofTexts forms rest).map (word :: ·)

structure Reading (α : Type) where
  found : List (α × Option String)
  open? : Option α
  left : Bool

def bare (form : OptionForm α) : Reading α :=
  if form.hasValue then ⟨[], some form.option, false⟩ else ⟨[(form.option, none)], none, false⟩

def valued (form : OptionForm α) (value : List Char) : Except Usage (Reading α) :=
  if form.hasValue then .ok ⟨[(form.option, some (String.ofList value))], none, false⟩ else .error .misuse

-- An option by letter with what follows: its value, with or without an equals sign, or further letters. An unknown
-- letter is left over with all that follows.
def cluster (forms : List (OptionForm α)) : OptionForm α → List Char → Except Usage (Reading α)
  | form, [] => .ok (bare form)
  | form, '=' :: value => valued form value
  | form, c :: rest =>
    if form.hasValue then valued form (c :: rest)
    else if c = '-' then .error .misuse
    else
      match forms.find? (·.letter == some c) with
      | none => .ok ⟨[(form.option, none)], none, true⟩
      | some next => (cluster forms next rest).map fun r => { r with found := (form.option, none) :: r.found }

def reading (forms : List (OptionForm α)) : CommandWord α → Except Usage (Reading α)
  | named form none => .ok (bare form)
  | named form (some value) => valued form value
  | lettered form attached => cluster forms form attached
  | _ => .ok ⟨[], none, true⟩

def interpret {σ : Type} (forms : List (OptionForm α)) (take : σ → α × Option String → Except Usage σ) :
    σ → Bool → List (CommandWord α) → Except Usage (σ × Bool)
  | s, left, [] => .ok (s, left)
  | s, left, word :: rest => do
    let r ← reading forms word
    match r.open? with
    | none => interpret forms take (← r.found.foldlM take s) (left || r.left) rest
    | some o =>
      match rest with
      | .plain value :: later =>
        interpret forms take (← (r.found ++ [(o, some value)]).foldlM take s) (left || r.left) later
      | _ => .error .misuse

end CommandWord

end BoltzmannSampling
