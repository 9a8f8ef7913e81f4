import OnePass.Diagnostic
import OnePass.Text.Escape
import OnePass.Token.Basic

/-!
What can be wrong with a program: each cause with the place it is seen at.
-/

namespace OnePass

/-- What a program should have gone on with. -/
inductive Wanted
  | kind (k : Kind)
  | type
  | expression
  deriving DecidableEq, Repr

def Wanted.describe : Wanted → String
  | kind k => k.describe
  | type => "type"
  | expression => "expression"

inductive Fault
  | strayCharacter (position : Position) (c : Char)
  | literalTooLarge (position : Position) (digits : String)
  | unexpected (wanted : Wanted) (found : Token)
  | redeclared (name : Token)
  | undeclared (name : Token)
  deriving DecidableEq, Repr

namespace Fault

def stage : Fault → Stage
  | strayCharacter .. | literalTooLarge .. => .lexical
  | unexpected .. => .syntactic
  | redeclared .. | undeclared .. => .semantic

def position : Fault → Position
  | strayCharacter p _ | literalTooLarge p _ => p
  | unexpected _ t | redeclared t | undeclared t => t.position

def description : Fault → String
  | strayCharacter _ c => s!"unexpected character '{Text.escape c}'"
  | literalTooLarge _ digits => s!"integer literal {digits} is out of range"
  | unexpected wanted found => s!"expected {wanted.describe}, found {found.describe}"
  | redeclared name => s!"variable '{name.lexeme}' already declared"
  | undeclared name => s!"variable '{name.lexeme}' not declared"

def diagnostic (f : Fault) : Diagnostic := ⟨f.stage, f.position, f.description⟩

end Fault

end OnePass
