import OnePass.Fault
import OnePass.Text.Blank
import OnePass.Text.Literal

/-!
Cutting a text into tokens, in one pass over its characters.

The scanner keeps the lexeme it is inside of. A character that can extend this lexeme does so;
any other character closes it, and then begins a lexeme of its own unless it is white space. So
each lexeme is as long as it can be.
-/

namespace OnePass

/-- The class of a lexeme, which its first character decides. -/
inductive LexemeClass
  | word
  | number
  | symbol (first : Char)
  deriving DecidableEq, Repr

/-- Letters and digits are those of ASCII. -/
def LexemeClass.ofFirst (c : Char) : LexemeClass :=
  if c.isAlpha then word else if c.isDigit then number else symbol c

/-- A lexeme that may not have ended yet. -/
structure Lexeme where
  lexClass : LexemeClass
  text : String
  start : Position
  deriving DecidableEq, Repr

namespace Lexeme

def begin (p : Position) (c : Char) : Lexeme := ⟨.ofFirst c, String.singleton c, p⟩

/-- The lexeme goes on with `c`. -/
def accepts (l : Lexeme) (c : Char) : Bool :=
  match l.lexClass with
  | .word => c.isAlphanum
  | .number => c.isDigit
  | .symbol _ => (Kind.ofSymbol? (l.text.push c)).isSome

/-- The token of a lexeme that has ended. -/
def close (l : Lexeme) : Except Fault Token :=
  match l.lexClass with
  | .word => .ok ⟨Kind.ofWord l.text, l.text, l.start⟩
  | .number =>
    match Text.literalValue? l.text with
    | some _ => .ok ⟨.number, l.text, l.start⟩
    | none => .error (.literalTooLarge l.start l.text)
  | .symbol first =>
    match Kind.ofSymbol? l.text with
    | some k => .ok ⟨k, l.text, l.start⟩
    | none => .error (.strayCharacter l.start first)

end Lexeme

structure Scanner where
  position : Position
  current : Option Lexeme
  tokens : Array Token
  deriving DecidableEq, Repr

namespace Scanner

def init : Scanner := ⟨.start, none, #[]⟩

/-- Ends the current lexeme, if there is one. -/
def closeCurrent (s : Scanner) : Except Fault Scanner :=
  match s.current with
  | none => .ok s
  | some l => l.close.map fun t => { s with current := none, tokens := s.tokens.push t }

/-- Passes over `c` between lexemes: white space is skipped, all else begins a lexeme. -/
def openAt (s : Scanner) (c : Char) : Scanner :=
  { s with
    position := s.position.next c
    current := if Text.isBlank c then none else some (.begin s.position c) }

def step (s : Scanner) (c : Char) : Except Fault Scanner :=
  match s.current with
  | none => .ok (s.openAt c)
  | some l =>
    if l.accepts c then
      .ok { s with position := s.position.next c, current := some { l with text := l.text.push c } }
    else
      s.closeCurrent.map (·.openAt c)

def run (s : Scanner) (cs : List Char) : Except Fault Scanner := cs.foldlM step s

@[simp] theorem run_nil (s : Scanner) : s.run [] = .ok s := rfl

@[simp] theorem run_cons (s : Scanner) (c : Char) (cs : List Char) :
    s.run (c :: cs) = s.step c >>= fun s => s.run cs := rfl

theorem run_append (s : Scanner) (cs ds : List Char) :
    s.run (cs ++ ds) = s.run cs >>= fun s => s.run ds := by
  simp [run, List.foldlM_append]

/-- The tokens of the whole text, with the token that marks its end. -/
def finish (s : Scanner) : Except Fault (List Token) :=
  s.closeCurrent.map fun s => (s.tokens.push ⟨.eof, "", s.position⟩).toList

end Scanner

/-- The tokens of a text, the last of which is the end of input, or the first lexical fault. -/
def tokenize (source : String) : Except Fault (List Token) :=
  Scanner.init.run source.toList >>= Scanner.finish

end OnePass
