import OnePass.Parse
import OnePass.Token.Scanner

/-!
From the text of a program to its code.
-/

namespace OnePass

/-- All that a compilation leaves behind, whether it succeeds or not. -/
structure Outcome where
  result : Except Fault SymbolTable
  /-- The code that was there before, and the code of this program or of its beginning. -/
  code : Array Instruction
  events : List Event

/-- Compiles a program, appending its code to `sink`. After a lexical fault nothing is appended;
after any other fault, what was emitted before it stays. -/
def compileInto (sink : Array Instruction) (source : String) : Outcome :=
  match tokenize source with
  | .error fault => ⟨.error fault, sink, []⟩
  | .ok tokens =>
    match parseProgram ((Draft.onto sink).record (.scanned tokens.length)) tokens with
    | .error stop => ⟨.error stop.fault, stop.draft.code, stop.draft.events.toList⟩
    | .ok draft =>
      let summary := .compiled draft.symbols.size (draft.code.size - sink.size)
      ⟨.ok draft.symbols, draft.code, (draft.record summary).events.toList⟩

/-- The code of a program. -/
def compile (source : String) : Except Fault (List Instruction) :=
  let outcome := compileInto #[] source
  outcome.result.map fun _ => outcome.code.toList

/-- Compiles programs one after the other into the same sink, going on after faults. -/
def compileAll (sink : Array Instruction) : List String → List Outcome
  | [] => []
  | source :: rest =>
    let outcome := compileInto sink source
    outcome :: compileAll outcome.code rest

end OnePass
