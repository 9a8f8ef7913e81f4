import Mathlib.Tactic.Lemma
import OnePass.Token.Basic

/-!
The grammar of programs, as the type of their derivations.

A derivation has tokens at its leaves, and each rule of the grammar is a constructor or a
structure. An item that may be repeated is a category of its own: what may still follow once the
first item has been read.
-/

namespace OnePass

/-- A token of a given kind: a leaf of a derivation. -/
abbrev Terminal (k : Kind) := { t : Token // t.kind = k }

@[simp] lemma kind_terminal {k : Kind} (x : Terminal k) : x.1.kind = k := x.2

instance (k : Kind) : Inhabited (Terminal k) := ⟨⟨k, "", .start⟩, rfl⟩

namespace Grammar

/-! ### Expressions -/

inductive ExprCategory
  | factor | moreFactors | term | moreTerms | expression | comparison

inductive ExprTree : ExprCategory → Type
  /-- factor := id -/
  | name (x : Terminal .identifier) : ExprTree .factor
  /-- factor := number -/
  | number (v : Terminal .number) : ExprTree .factor
  /-- factor := '(' expression ')' -/
  | parens (l : Terminal .leftParen) (e : ExprTree .expression) (r : Terminal .rightParen) :
      ExprTree .factor
  | noFactors : ExprTree .moreFactors
  | multiply (op : Terminal .star) (f : ExprTree .factor) (fs : ExprTree .moreFactors) :
      ExprTree .moreFactors
  | divide (op : Terminal .slash) (f : ExprTree .factor) (fs : ExprTree .moreFactors) :
      ExprTree .moreFactors
  /-- term := factor {('*' | '/') factor} -/
  | term (f : ExprTree .factor) (fs : ExprTree .moreFactors) : ExprTree .term
  | noTerms : ExprTree .moreTerms
  | add (op : Terminal .plus) (t : ExprTree .term) (ts : ExprTree .moreTerms) :
      ExprTree .moreTerms
  | subtract (op : Terminal .minus) (t : ExprTree .term) (ts : ExprTree .moreTerms) :
      ExprTree .moreTerms
  /-- expression := term {('+' | '-') term} -/
  | expression (t : ExprTree .term) (ts : ExprTree .moreTerms) : ExprTree .expression
  | noComparison : ExprTree .comparison
  /-- What may follow the expression of a condition: '<=' expression -/
  | lessEqual (op : Terminal .lessEqual) (e : ExprTree .expression) : ExprTree .comparison

namespace ExprTree

/-- The tokens at the leaves, from left to right. -/
def yield {c : ExprCategory} : ExprTree c → List Token
  | .name x => [x.1]
  | .number v => [v.1]
  | .parens l e r => l.1 :: e.yield ++ [r.1]
  | .noFactors | .noTerms | .noComparison => []
  | .multiply op f fs => op.1 :: f.yield ++ fs.yield
  | .divide op f fs => op.1 :: f.yield ++ fs.yield
  | .term f fs => f.yield ++ fs.yield
  | .add op t ts => op.1 :: t.yield ++ ts.yield
  | .subtract op t ts => op.1 :: t.yield ++ ts.yield
  | .expression t ts => t.yield ++ ts.yield
  | .lessEqual op e => op.1 :: e.yield

instance : Inhabited (ExprTree .factor) := ⟨.number default⟩

instance : Inhabited (ExprTree .term) := ⟨.term default .noFactors⟩

instance : Inhabited (ExprTree .expression) := ⟨.expression default .noTerms⟩

end ExprTree

/-! ### Commands -/

inductive CommandCategory
  | command | moreCommands | commands

inductive CommandTree : CommandCategory → Type
  /-- command := id ':=' expression -/
  | assign (x : Terminal .identifier) (op : Terminal .assign) (e : ExprTree .expression) :
      CommandTree .command
  /-- command := 'while' expression ['<=' expression] 'do' command -/
  | loop (w : Terminal .whileKw) (e : ExprTree .expression) (r : ExprTree .comparison)
      (d : Terminal .doKw) (body : CommandTree .command) : CommandTree .command
  /-- command := 'read' '(' id ')' -/
  | read (k : Terminal .readKw) (l : Terminal .leftParen) (x : Terminal .identifier)
      (r : Terminal .rightParen) : CommandTree .command
  /-- command := 'write' '(' expression ')' -/
  | write (k : Terminal .writeKw) (l : Terminal .leftParen) (e : ExprTree .expression)
      (r : Terminal .rightParen) : CommandTree .command
  /-- command := 'begin' commands 'end' -/
  | compound (b : Terminal .beginKw) (cs : CommandTree .commands) (e : Terminal .endKw) :
      CommandTree .command
  /-- command := -/
  | empty : CommandTree .command
  | noCommands : CommandTree .moreCommands
  | next (s : Terminal .semicolon) (c : CommandTree .command) (cs : CommandTree .moreCommands) :
      CommandTree .moreCommands
  /-- commands := command {';' command} -/
  | commands (c : CommandTree .command) (cs : CommandTree .moreCommands) : CommandTree .commands

namespace CommandTree

def yield {c : CommandCategory} : CommandTree c → List Token
  | .assign x op e => x.1 :: op.1 :: e.yield
  | .loop w e r d body => w.1 :: e.yield ++ r.yield ++ d.1 :: body.yield
  | .read k l x r => [k.1, l.1, x.1, r.1]
  | .write k l e r => k.1 :: l.1 :: e.yield ++ [r.1]
  | .compound b cs e => b.1 :: cs.yield ++ [e.1]
  | .empty | .noCommands => []
  | .next s c cs => s.1 :: c.yield ++ cs.yield
  | .commands c cs => c.yield ++ cs.yield

end CommandTree

/-! ### Programs -/

/-- group := id {',' id} ':' 'integer' ';' -/
structure Group where
  first : Terminal .identifier
  more : List (Terminal .comma × Terminal .identifier)
  colon : Terminal .colon
  type : Terminal .integerKw
  semicolon : Terminal .semicolon
  deriving Inhabited

def Group.names (g : Group) : List Token := g.first.1 :: g.more.map fun p => p.2.1

/-- The tokens of the names after the first of a group, with their commas. -/
def moreNamesYield (more : List (Terminal .comma × Terminal .identifier)) : List Token :=
  more.flatMap fun p => [p.1.1, p.2.1]

def Group.yield (g : Group) : List Token :=
  g.first.1 :: moreNamesYield g.more ++ [g.colon.1, g.type.1, g.semicolon.1]

/-- declarations := 'var' group {group} -/
structure Declarations where
  var : Terminal .varKw
  first : Group
  more : List Group

namespace Declarations

def groups (ds : Declarations) : List Group := ds.first :: ds.more

def yield (ds : Declarations) : List Token := ds.var.1 :: ds.groups.flatMap Group.yield

def names (ds : Declarations) : List Token := ds.groups.flatMap Group.names

end Declarations

/-- program := 'program' id ';' [declarations] 'begin' commands 'end' '.' -/
structure Program where
  program : Terminal .programKw
  name : Terminal .identifier
  semicolon : Terminal .semicolon
  declarations : Option Declarations
  begin : Terminal .beginKw
  body : CommandTree .commands
  finish : Terminal .endKw
  dot : Terminal .dot

namespace Program

def header (P : Program) : List Token :=
  P.program.1 :: P.name.1 :: P.semicolon.1 :: P.declarations.elim [] Declarations.yield

/-- All tokens of a program. The end of input is not one of them. -/
def yield (P : Program) : List Token :=
  P.header ++ P.begin.1 :: P.body.yield ++ [P.finish.1, P.dot.1]

def names (P : Program) : List Token := P.declarations.elim [] Declarations.names

end Program

/-! ### Kinds of tokens in derivations -/

def Group.kinds : List Kind := [.identifier, .comma, .colon, .integerKw, .semicolon]

lemma Group.kind_mem (g : Group) : ∀ t ∈ g.yield, t.kind ∈ Group.kinds := by
  have hm : ∀ t ∈ moreNamesYield g.more, t.kind ∈ Group.kinds := by
    intro t ht
    obtain ⟨p, -, hp⟩ := List.mem_flatMap.1 ht
    simp only [List.mem_cons, List.not_mem_nil, or_false] at hp
    rcases hp with rfl | rfl <;> simp [Group.kinds]
  intro t ht
  simp only [yield, List.cons_append, List.mem_cons, List.mem_append, List.not_mem_nil,
    or_false] at ht
  rcases ht with rfl | ht | rfl | rfl | rfl
  case inr.inl => exact hm t ht
  all_goals simp [Group.kinds]

def Program.headerKinds : List Kind := .programKw :: .varKw :: Group.kinds

lemma Program.kind_mem_header (P : Program) : ∀ t ∈ P.header, t.kind ∈ headerKinds := by
  have hd : ∀ t ∈ P.declarations.elim [] Declarations.yield, t.kind ∈ headerKinds := by
    cases P.declarations with
    | none => simp
    | some ds =>
      intro t ht
      rcases List.mem_cons.1 ht with rfl | ht
      · simp [headerKinds]
      · obtain ⟨g, -, hg⟩ := List.mem_flatMap.1 ht
        exact List.mem_cons_of_mem _ (List.mem_cons_of_mem _ (g.kind_mem t hg))
  intro t ht
  simp only [header, List.mem_cons] at ht
  rcases ht with rfl | rfl | rfl | ht
  case inr.inr.inr => exact hd t ht
  all_goals simp [headerKinds, Group.kinds]

lemma ExprTree.kind_ne_eof {c : ExprCategory} (D : ExprTree c) :
    ∀ t ∈ D.yield, t.kind ≠ .eof := by
  induction D <;> simp_all [yield, or_imp]

lemma CommandTree.kind_ne_eof {c : CommandCategory} (C : CommandTree c) :
    ∀ t ∈ C.yield, t.kind ≠ .eof := by
  induction C with
  | assign x op e => simpa [yield] using e.kind_ne_eof
  | loop w e r d body ih =>
    have he := e.kind_ne_eof
    have hr := r.kind_ne_eof
    simp_all [yield, or_imp]
  | write k l e r =>
    have he := e.kind_ne_eof
    simp_all [yield, or_imp]
  | _ => simp_all [yield, or_imp]

lemma Program.kind_ne_eof (P : Program) : ∀ t ∈ P.yield, t.kind ≠ .eof := by
  have hh : ∀ t ∈ P.header, t.kind ≠ .eof := by
    intro t ht he
    have hm := P.kind_mem_header t ht
    rw [he] at hm
    revert hm
    decide
  have hb := P.body.kind_ne_eof
  simp_all [yield, or_imp]

end Grammar

end OnePass
