import OnePass.Draft

/-!
The grammar, as goals that are met by tokens.

A goal looks at one token. It takes the token, perhaps leaving further goals to be met after it;
or it is met without the token, which is then for the goal below; or the program is faulty. Code
is emitted by goals of its own, which need no token, so that it comes between the right two
tokens. A repetition is a goal that, having taken a separator, leaves itself behind.
-/

namespace OnePass

inductive Goal
  /-- One token of this kind. -/
  | token (k : Kind)
  /-- No token; the instruction is emitted. -/
  | emit (i : Instruction)
  /-- The variables, if there are any. -/
  | declarations
  /-- A name for a group of declarations that has these names already. -/
  | name (group : List Token)
  /-- More names for the group, or its type. -/
  | moreNames (group : List Token)
  | type
  /-- The end of the group, where its names become known. -/
  | closeGroup (group : List Token)
  /-- Another group, or the end of the declarations. -/
  | moreGroups
  | command
  | moreCommands
  /-- The variable of a read command. -/
  | readTarget
  | factor
  | moreFactors
  | moreTerms
  /-- The right side of a condition, if it has one. -/
  | comparison
  deriving DecidableEq, Repr

/-- What becomes of a goal at a token. -/
inductive Reply
  /-- The goal is met and the token is not used. -/
  | pass (d : Draft)
  /-- The token is used and these goals come in the goal's place. -/
  | take (d : Draft) (goals : List Goal)

namespace Goal

def term : List Goal := [factor, moreFactors]

def expression : List Goal := [factor, moreFactors, moreTerms]

def commands : List Goal := [command, moreCommands]

/-- A whole program, to the end of the input. -/
def program : List Goal :=
  [token .programKw, token .identifier, token .semicolon, emit .start, declarations,
    token .beginKw, command, moreCommands, token .endKw, token .dot, emit .halt, token .eof]

/-- The goals of a loop from its condition on, given its labels. -/
def loop (again done : Label) : List Goal :=
  expression ++ [comparison, emit (.jumpIfFalse done), token .doKw, command, emit (.jump again),
    emit (.anchor done)]

/-- A factor or term on the right of an operator, and what may follow it. -/
def operand (side : List Goal) (op : Operator) (more : Goal) : List Goal :=
  side ++ [emit (.operate op), more]

def wants {α : Type} (d : Draft) (t : Token) (w : Wanted) : Except Stop α :=
  d.fail (.unexpected w t)

/-- A command begins with a token that tells which command it is. The empty command begins with
no token, and so with any other. -/
def meetCommand (d : Draft) (t : Token) : Except Stop Reply :=
  match t.kind with
  | .identifier => do
    let address ← d.addressOf t
    return .take d (token .assign :: expression ++ [emit (.store address)])
  | .whileKw =>
    let (again, d) := d.newLabel
    let (done, d) := d.newLabel
    return .take (d.emit (.anchor again)) (loop again done)
  | .readKw => return .take d [token .leftParen, readTarget]
  | .writeKw =>
    return .take d (token .leftParen :: expression ++ [token .rightParen, emit .write])
  | .beginKw => return .take d (commands ++ [token .endKw])
  | _ => return .pass d

def meetFactor (d : Draft) (t : Token) : Except Stop Reply :=
  match t.kind with
  | .identifier => do
    let address ← d.addressOf t
    return .take (d.emit (.load address)) []
  | .number => do
    let value ← d.valueOf t
    return .take (d.emit (.constant value)) []
  | .leftParen => return .take d (expression ++ [token .rightParen])
  | _ => wants d t .expression

/-- What becomes of a goal at the token `t`. -/
def meet (d : Draft) (t : Token) : Goal → Except Stop Reply
  | token k => if t.kind = k then return .take d [] else wants d t (.kind k)
  | emit i => return .pass (d.emit i)
  | declarations => if t.kind = .varKw then return .take d [name []] else return .pass d
  | name group =>
    if t.kind = .identifier then return .take d [moreNames (group ++ [t])]
    else wants d t (.kind .identifier)
  | moreNames group =>
    match t.kind with
    | .comma => return .take d [name group]
    | .colon => return .take d [type, closeGroup group]
    | _ => wants d t (.kind .colon)
  | type => if t.kind = .integerKw then return .take d [] else wants d t .type
  | closeGroup group =>
    if t.kind = .semicolon then return .take (← d.declareAll group) [moreGroups]
    else wants d t (.kind .semicolon)
  | moreGroups =>
    if t.kind = .identifier then return .take d [moreNames [t]]
    else return .pass (d.emit (.allocate d.symbols.size))
  | command => meetCommand d t
  | moreCommands => if t.kind = .semicolon then return .take d commands else return .pass d
  | readTarget =>
    if t.kind = .identifier then do
      let address ← d.addressOf t
      return .take d [token .rightParen, emit .read, emit (.store address)]
    else wants d t (.kind .identifier)
  | factor => meetFactor d t
  | moreFactors =>
    match t.kind with
    | .star => return .take d (operand [factor] .multiply moreFactors)
    | .slash => return .take d (operand [factor] .divide moreFactors)
    | _ => return .pass d
  | moreTerms =>
    match t.kind with
    | .plus => return .take d (operand term .add moreTerms)
    | .minus => return .take d (operand term .subtract moreTerms)
    | _ => return .pass d
  | comparison =>
    if t.kind = .lessEqual then return .take d (expression ++ [emit (.operate .lessOrEqual)])
    else return .pass d

end Goal

end OnePass
