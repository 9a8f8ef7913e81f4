import OnePass.Position

/-!
Tokens: the kinds of lexemes a program is made of, and lexemes with their places.
-/

namespace OnePass

inductive Kind
  | programKw | varKw | integerKw | beginKw | endKw | readKw | writeKw | whileKw | doKw
  | identifier | number
  | assign | lessEqual | plus | minus | star | slash
  | semicolon | colon | comma | leftParen | rightParen | dot
  | eof
  deriving DecidableEq, Repr

namespace Kind

/-- The lexeme of a kind that has only one. -/
def spelling? : Kind → Option String
  | programKw => some "program"
  | varKw => some "var"
  | integerKw => some "integer"
  | beginKw => some "begin"
  | endKw => some "end"
  | readKw => some "read"
  | writeKw => some "write"
  | whileKw => some "while"
  | doKw => some "do"
  | assign => some ":="
  | lessEqual => some "<="
  | plus => some "+"
  | minus => some "-"
  | star => some "*"
  | slash => some "/"
  | semicolon => some ";"
  | colon => some ":"
  | comma => some ","
  | leftParen => some "("
  | rightParen => some ")"
  | dot => some "."
  | identifier | number | eof => none

def keywords : List Kind :=
  [programKw, varKw, integerKw, beginKw, endKw, readKw, writeKw, whileKw, doKw]

def symbols : List Kind :=
  [assign, lessEqual, plus, minus, star, slash, semicolon, colon, comma, leftParen, rightParen,
    dot]

/-- The kind of a word: a keyword if it is spelled exactly like one. -/
def ofWord (word : String) : Kind :=
  (keywords.find? (·.spelling? == some word)).getD identifier

/-- The kind of a lexeme that is neither a word nor a number. -/
def ofSymbol? (text : String) : Option Kind :=
  symbols.find? (·.spelling? == some text)

/-- How messages name the kind. -/
def describe (k : Kind) : String :=
  match k.spelling? with
  | some s => "\"" ++ s ++ "\""
  | none =>
    match k with
    | identifier => "identifier"
    | number => "number"
    | _ => "end of input"

end Kind

structure Token where
  kind : Kind
  lexeme : String
  position : Position
  deriving DecidableEq, Repr

/-- How messages name the token: by its kind, with the lexeme where the kind leaves it open. -/
def Token.describe (t : Token) : String :=
  match t.kind with
  | .identifier | .number => s!"{t.kind.describe} '{t.lexeme}'"
  | k => k.describe

end OnePass
