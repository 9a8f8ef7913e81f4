import OnePass.Parse
import OnePass.Proofs.Names

/-!
The grammar as a table: what a goal does at a token, by the kind of the token.

A goal takes the tokens that it has a row for, and what it does at any other token is the same for
all of them. What holds of all goals is then shown of the few things that can be done at a token,
and of the goals that the rows leave behind.
-/

namespace OnePass.Goal

/-- What a goal does with a token that it takes. -/
inductive Take
  /-- These goals come in its place. -/
  | go (new : List Goal)
  /-- The token is one more name for the group. -/
  | name (group : List Token)
  /-- The token names the variable that is stored to after these goals. -/
  | store (new : List Goal)
  | load
  | constant
  | loop
  | declare (group : List Token)

/-- What a goal does at a token that it does not take. -/
inductive Skip
  | pass
  | emit (i : Instruction)
  /-- The storage for the names that are known is set aside. -/
  | allocate
  | want (w : Wanted)

def Take.on (d : Draft) (t : Token) : Take → Except Stop Reply
  | go new => .ok (.take d new)
  | name group => .ok (.take d [moreNames (group ++ [t])])
  | store new => d.addressOf t >>= fun a => pure (.take d (new ++ [.emit (.store a)]))
  | load => d.addressOf t >>= fun a => pure (.take (d.emit (.load a)) [])
  | constant => d.valueOf t >>= fun v => pure (.take (d.emit (.constant v)) [])
  | loop =>
    .ok (.take (d.newLabel.2.newLabel.2.emit (.anchor d.newLabel.1))
      (Goal.loop d.newLabel.1 d.newLabel.2.newLabel.1))
  | declare group => d.declareAll group >>= fun d => pure (.take d [moreGroups])

def Skip.on (d : Draft) (t : Token) : Skip → Except Stop Reply
  | pass => .ok (.pass d)
  | emit i => .ok (.pass (d.emit i))
  | allocate => .ok (.pass (d.emit (.allocate d.symbols.size)))
  | want w => wants d t w

/-- The goals that come in the place of one that takes the token, if the token's address is `a`. -/
def Take.goals (d : Draft) (t : Token) (a : Nat) : Take → List Goal
  | go new => new
  | name group => [moreNames (group ++ [t])]
  | store new => new ++ [.emit (.store a)]
  | load | constant => []
  | loop => Goal.loop d.newLabel.1 d.newLabel.2.newLabel.1
  | declare _ => [moreGroups]

/-- The rows for tokens of the kind `k`. -/
inductive Takes (k : Kind) : Goal → Take → Prop
  | token {j : Kind} (h : k = j) : Takes k (token j) (.go [])
  | var (h : k = .varKw) : Takes k declarations (.go [name []])
  | name {group : List Token} (h : k = .identifier) : Takes k (name group) (.name group)
  | comma {group : List Token} (h : k = .comma) : Takes k (moreNames group) (.go [name group])
  | colon {group : List Token} (h : k = .colon) :
      Takes k (moreNames group) (.go [type, closeGroup group])
  | integer (h : k = .integerKw) : Takes k type (.go [])
  | endGroup {group : List Token} (h : k = .semicolon) : Takes k (closeGroup group) (.declare group)
  | nextGroup (h : k = .identifier) : Takes k moreGroups (.name [])
  | assign (h : k = .identifier) : Takes k command (.store (.token .assign :: expression))
  | loop (h : k = .whileKw) : Takes k command .loop
  | read (h : k = .readKw) : Takes k command (.go [.token .leftParen, readTarget])
  | write (h : k = .writeKw) :
      Takes k command (.go (.token .leftParen :: expression ++ [.token .rightParen, emit .write]))
  | compound (h : k = .beginKw) : Takes k command (.go (commands ++ [.token .endKw]))
  | nextCommand (h : k = .semicolon) : Takes k moreCommands (.go commands)
  | target (h : k = .identifier) : Takes k readTarget (.store [.token .rightParen, emit .read])
  | load (h : k = .identifier) : Takes k factor .load
  | constant (h : k = .number) : Takes k factor .constant
  | parens (h : k = .leftParen) : Takes k factor (.go (expression ++ [.token .rightParen]))
  | multiply (h : k = .star) : Takes k moreFactors (.go (operand [factor] .multiply moreFactors))
  | divide (h : k = .slash) : Takes k moreFactors (.go (operand [factor] .divide moreFactors))
  | add (h : k = .plus) : Takes k moreTerms (.go (operand term .add moreTerms))
  | subtract (h : k = .minus) : Takes k moreTerms (.go (operand term .subtract moreTerms))
  | lessEqual (h : k = .lessEqual) :
      Takes k comparison (.go (expression ++ [emit (.operate .lessOrEqual)]))

/-- What a goal does at a token that it has no row for. -/
def otherwise : Goal → Skip
  | token k => .want (.kind k)
  | emit i => .emit i
  | name _ | readTarget => .want (.kind .identifier)
  | moreNames _ => .want (.kind .colon)
  | type => .want .type
  | closeGroup _ => .want (.kind .semicolon)
  | moreGroups => .allocate
  | factor => .want .expression
  | declarations | command | moreCommands | moreFactors | moreTerms | comparison => .pass

variable {g : Goal} {d d' : Draft} {t : Token} {m : Take} {new : List Goal} {s : Stop}

/-! ### The goals follow the table -/

lemma Takes.meet_eq (h : Takes t.kind g m) (d : Draft) : g.meet d t = m.on d t := by
  cases h with
  | _ h => simp [meet, meetCommand, meetFactor, Take.on, h]

lemma meet_of_not_takes (h : ∀ m, ¬ Takes t.kind g m) (d : Draft) :
    g.meet d t = g.otherwise.on d t := by
  cases g with
  | emit i => rfl
  | token k => exact if_neg fun hk => h _ (.token hk)
  | declarations => exact if_neg fun hk => h _ (.var hk)
  | name group => exact if_neg fun hk => h _ (.name hk)
  | type => exact if_neg fun hk => h _ (.integer hk)
  | closeGroup group => exact if_neg fun hk => h _ (.endGroup hk)
  | moreGroups => exact if_neg fun hk => h _ (.nextGroup hk)
  | moreCommands => exact if_neg fun hk => h _ (.nextCommand hk)
  | readTarget => exact if_neg fun hk => h _ (.target hk)
  | comparison => exact if_neg fun hk => h _ (.lessEqual hk)
  | moreNames group =>
    simp only [meet]
    split
    · exact absurd (.comma ‹_›) (h _)
    · exact absurd (.colon ‹_›) (h _)
    · rfl
  | command =>
    simp only [meet, meetCommand]
    split
    · exact absurd (.assign ‹_›) (h _)
    · exact absurd (.loop ‹_›) (h _)
    · exact absurd (.read ‹_›) (h _)
    · exact absurd (.write ‹_›) (h _)
    · exact absurd (.compound ‹_›) (h _)
    · rfl
  | factor =>
    simp only [meet, meetFactor]
    split
    · exact absurd (.load ‹_›) (h _)
    · exact absurd (.constant ‹_›) (h _)
    · exact absurd (.parens ‹_›) (h _)
    · rfl
  | moreFactors =>
    simp only [meet]
    split
    · exact absurd (.multiply ‹_›) (h _)
    · exact absurd (.divide ‹_›) (h _)
    · rfl
  | moreTerms =>
    simp only [meet]
    split
    · exact absurd (.add ‹_›) (h _)
    · exact absurd (.subtract ‹_›) (h _)
    · rfl

/-- **What a goal does at a token**, whatever the draft: it has a row for the token, or does what it
does otherwise. -/
theorem meet_cases (g : Goal) (t : Token) :
    (∃ m, Takes t.kind g m ∧ ∀ d, g.meet d t = m.on d t) ∨
      (∀ m, ¬ Takes t.kind g m) ∧ ∀ d, g.meet d t = g.otherwise.on d t := by
  by_cases h : ∃ m, Takes t.kind g m
  · obtain ⟨m, hm⟩ := h
    exact .inl ⟨m, hm, hm.meet_eq⟩
  · rw [not_exists] at h
    exact .inr ⟨h, meet_of_not_takes h⟩

lemma Take.on_ne_pass (m : Take) : m.on d t ≠ .ok (.pass d') := by
  cases m <;> simp [on, bind_eq_ok]

lemma takes_of_meet (h : g.meet d t = .ok (.take d' new)) :
    ∃ m, Takes t.kind g m ∧ m.on d t = .ok (.take d' new) := by
  rcases g.meet_cases t with ⟨m, hm, he⟩ | ⟨-, he⟩
  · exact ⟨m, hm, (he d).symm.trans h⟩
  · rw [he] at h
    cases hs : g.otherwise <;> rw [hs] at h <;> cases h

lemma otherwise_of_pass (h : g.meet d t = .ok (.pass d')) :
    g.otherwise.on d t = .ok (.pass d') := by
  rcases g.meet_cases t with ⟨m, -, he⟩ | ⟨-, he⟩
  · exact absurd ((he d).symm.trans h) m.on_ne_pass
  · exact (he d).symm.trans h

lemma takes_of_error (h : g.meet d t = .error s) :
    (∃ w, g.otherwise = .want w ∧ s = ⟨.unexpected w t, d⟩) ∨
      ∃ m, Takes t.kind g m ∧ m.on d t = .error s := by
  rcases g.meet_cases t with ⟨m, hm, he⟩ | ⟨-, he⟩
  · exact .inr ⟨m, hm, (he d).symm.trans h⟩
  · rw [he] at h
    cases hs : g.otherwise <;> rw [hs] at h <;> cases h
    exact .inl ⟨_, rfl, rfl⟩

/-- What is at fault with a token that is taken: its name or its value, or a name that is declared
with it. -/
lemma Take.on_eq_error (h : m.on d t = .error s) :
    s = ⟨.undeclared t, d⟩ ∨ (m = .constant ∧ d.valueOf t = .error s) ∨
      ∃ group, m = .declare group ∧ d.declareAll group = .error s := by
  cases m with
  | go new | name group | loop => cases h
  | store new | load =>
    obtain h | ⟨a, -, h⟩ := bind_eq_error.1 h
    · exact .inl (Draft.addressOf_eq_error h).2
    · cases h
  | constant =>
    obtain h | ⟨v, -, h⟩ := bind_eq_error.1 h
    · exact .inr (.inl ⟨rfl, h⟩)
    · cases h
  | declare group =>
    obtain h | ⟨d', -, h⟩ := bind_eq_error.1 h
    · exact .inr (.inr ⟨group, rfl, h⟩)
    · cases h

/-! ### What a goal leaves behind -/

lemma Take.goals_of_on (h : m.on d t = .ok (.take d' new)) : ∃ a, new = m.goals d t a := by
  cases m with
  | go new | name group | loop =>
    cases h
    exact ⟨0, rfl⟩
  | store new | load | constant | declare group =>
    obtain ⟨a, -, h⟩ := bind_eq_ok.1 h
    cases h
    first | exact ⟨a, rfl⟩ | exact ⟨0, rfl⟩

/-- A goal that another one may leave behind in the draft `d`. -/
def Left (d : Draft) : Goal → Prop
  | token k => k ∈ [.assign, .leftParen, .rightParen, .doKw, .endKw]
  | emit (.anchor l) => l = ⟨d.labels + 2⟩
  | emit i => i ≠ .start ∧ i ≠ .halt
  | _ => True

lemma Takes.left {k : Kind} (h : Takes k g m) (d : Draft) (t : Token) (a : Nat) :
    ∀ x ∈ m.goals d t a, Left d x := by
  cases h <;> simp [Take.goals, Left, expression, term, operand, commands, Goal.loop,
    Draft.newLabel, Draft.record]

end OnePass.Goal
