import OnePass.Instruction
import OnePass.Symbol

/-!
What a compilation tells about itself while it runs.
-/

namespace OnePass

/-- How closely one has to look to see an event. -/
inductive Level
  | debug | trace
  deriving DecidableEq, Repr

def Level.name : Level → String
  | debug => "DEBUG"
  | trace => "TRACE"

/-- The place of a level on the scale of a log: errors, warnings and notices are 0, 1 and 2. -/
def Level.rank : Level → Nat
  | debug => 3
  | trace => 4

inductive Event
  /-- The text was cut into this many tokens, the end of input among them. -/
  | scanned (tokens : Nat)
  | declared (symbol : Symbol)
  | labelled (label : Label)
  | compiled (symbols instructions : Nat)
  deriving DecidableEq, Repr

namespace Event

def level : Event → Level
  | scanned _ | compiled .. => .debug
  | declared _ | labelled _ => .trace

def text : Event → String
  | scanned tokens => s!"lexed {tokens} tokens"
  | declared symbol => s!"declared '{symbol.name}' at address {symbol.address}"
  | labelled label => s!"allocated label {label.text}"
  | compiled symbols instructions =>
    s!"compiled {symbols} symbols into {instructions} instructions"

end Event

end OnePass
