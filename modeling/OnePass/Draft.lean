import OnePass.Event
import OnePass.Text.Literal

/-!
What a compilation has produced so far.
-/

namespace OnePass

structure Draft where
  symbols : SymbolTable
  /-- The number of labels in use. -/
  labels : Nat
  code : Array Instruction
  events : Array Event
  deriving DecidableEq

/-- A compilation that stopped at a fault, with what it had produced by then. -/
structure Stop where
  fault : Fault
  draft : Draft
  deriving DecidableEq

namespace Draft

/-- Nothing but the code that was there before. -/
def onto (code : Array Instruction) : Draft := ⟨.empty, 0, code, #[]⟩

def emit (d : Draft) (i : Instruction) : Draft := { d with code := d.code.push i }

def record (d : Draft) (e : Event) : Draft := { d with events := d.events.push e }

/-- Takes the next label into use. Labels count from one. -/
def newLabel (d : Draft) : Label × Draft :=
  let label : Label := ⟨d.labels + 1⟩
  (label, { d with labels := d.labels + 1 }.record (.labelled label))

def fail {α : Type} (d : Draft) (f : Fault) : Except Stop α := .error ⟨f, d⟩

def declare (d : Draft) (t : Token) : Except Stop Draft :=
  match d.symbols.declare t with
  | .ok (symbol, table) => .ok ({ d with symbols := table }.record (.declared symbol))
  | .error f => d.fail f

/-- Declares names in order, up to the first that is taken. -/
def declareAll (d : Draft) (ts : List Token) : Except Stop Draft := ts.foldlM declare d

/-- The address of the variable that `t` names. -/
def addressOf (d : Draft) (t : Token) : Except Stop Nat :=
  match d.symbols.resolve t with
  | .ok symbol => .ok symbol.address
  | .error f => d.fail f

/-- The value of the literal `t`. -/
def valueOf (d : Draft) (t : Token) : Except Stop Nat :=
  match Text.literalValue? t.lexeme with
  | some n => .ok n
  | none => d.fail (.literalTooLarge t.position t.lexeme)

end Draft

end OnePass
