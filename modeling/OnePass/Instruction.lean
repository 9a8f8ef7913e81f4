/-!
The instructions of the stack machine and their text.
-/

namespace OnePass

/-- A place in the code that jumps refer to. Labels are ordered by their numbers. -/
structure Label where
  number : Nat
  deriving DecidableEq, Repr

namespace Label

instance : LE Label := ⟨fun a b => a.number ≤ b.number⟩

instance : DecidableLE Label := fun a b => inferInstanceAs (Decidable (a.number ≤ b.number))

def text (l : Label) : String := "L" ++ toString l.number

def sort (ls : List Label) : List Label := ls.mergeSort

end Label

/-- Operations that replace the two topmost values by one. -/
inductive Operator
  | add | subtract | multiply | divide | lessOrEqual
  deriving DecidableEq, Repr

def Operator.text : Operator → String
  | add => "SOMA"
  | subtract => "SUBT"
  | multiply => "MULT"
  | divide => "DIVI"
  | lessOrEqual => "CMEG"

inductive Instruction
  | start
  /-- Reserves storage cells. -/
  | allocate (cells : Nat)
  | store (address : Nat)
  | load (address : Nat)
  | constant (value : Int)
  | operate (op : Operator)
  | jumpIfFalse (target : Label)
  | jump (target : Label)
  /-- Does nothing; jumps to its label come here. -/
  | anchor (label : Label)
  | read
  | write
  | halt
  deriving DecidableEq, Repr

namespace Instruction

def text : Instruction → String
  | start => "INPP"
  | allocate cells => "AMEM " ++ toString cells
  | store address => "ARMZ " ++ toString address
  | load address => "CRVL " ++ toString address
  | constant value => "CRCT " ++ toString value
  | operate op => op.text
  | jumpIfFalse target => "DSVF " ++ target.text
  | jump target => "DSVS " ++ target.text
  | anchor label => label.text ++ ": NADA"
  | read => "LEIT"
  | write => "IMPR"
  | halt => "PARA"

/-- The text of a stretch of code: a line for each instruction. -/
def listing (code : List Instruction) : String :=
  String.join (code.map fun i => i.text ++ "\n")

@[simp] theorem listing_nil : listing [] = "" := rfl

theorem listing_cons (i : Instruction) (code : List Instruction) :
    listing (i :: code) = i.text ++ "\n" ++ listing code := by
  simp [listing, String.join_cons]

theorem listing_append (code rest : List Instruction) :
    listing (code ++ rest) = listing code ++ listing rest := by
  induction code with
  | nil => simp
  | cons i code ih => simp [listing_cons, ih, String.append_assoc]

end Instruction

end OnePass
