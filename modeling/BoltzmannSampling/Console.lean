import BoltzmannSampling.Text.Markup

/-!
Messages to the user. A quiet console shows warnings and errors only.
-/

namespace BoltzmannSampling

inductive Level where
  | info
  | hint
  | warning
  | error
deriving DecidableEq, Repr

namespace Level

def tag : Level → String
  | info => "info"
  | hint => "hint"
  | warning => "warning"
  | error => "error"

def isUrgent : Level → Bool
  | info | hint => false
  | warning | error => true

end Level

structure Message where
  level : Level
  text : String
deriving DecidableEq, Repr

namespace Message

def line (m : Message) : String :=
  let head := "[" ++ m.level.tag ++ "] "
  head ++ Text.shown head.length m.text ++ "\n"

end Message

structure Console where
  quiet : Bool

namespace Console

def shows (c : Console) (m : Message) : Bool := m.level.isUrgent || !c.quiet

def show? (c : Console) (m : Message) : Option String := if c.shows m then some m.line else none

def shown (c : Console) (ms : List Message) : List Message := ms.filter c.shows

end Console

end BoltzmannSampling
