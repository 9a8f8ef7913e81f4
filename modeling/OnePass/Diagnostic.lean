import OnePass.Position

/-!
Reports on what is wrong with a program, as the user reads them.
-/

namespace OnePass

/-- The part of the language's rules that a program breaks. -/
inductive Stage
  | lexical | syntactic | semantic
  deriving DecidableEq, Repr

def Stage.title : Stage → String
  | lexical => "Lexical"
  | syntactic => "Syntax"
  | semantic => "Semantic"

structure Diagnostic where
  stage : Stage
  position : Position
  description : String
  deriving DecidableEq, Repr

def Diagnostic.message (d : Diagnostic) : String :=
  s!"Line {d.position.line}, Column {d.position.column}: {d.stage.title} error: {d.description}"

end OnePass
