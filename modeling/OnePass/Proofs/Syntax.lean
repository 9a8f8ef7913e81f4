import OnePass.Proofs.Code

/-!
The syntax trees of programs, without the tokens that only hold them together, and their code.

A derivation lists the operands of a chain of operators one after the other. In the tree the
operators of a chain take what is on their left as one operand, and `*` and `/` are below `+` and
`-`. The code of a derivation is the code of its tree.
-/

namespace OnePass

/-- Expressions over variables in `ν`. -/
inductive Expr (ν : Type)
  | name (x : ν)
  | literal (n : Nat)
  | operate (op : Operator) (left right : Expr ν)

inductive Command (ν : Type)
  | empty
  | assign (x : ν) (e : Expr ν)
  | read (x : ν)
  | write (e : Expr ν)
  | loop (condition : Expr ν) (body : Command ν)
  | seq (first second : Command ν)

variable {ν μ : Type}

namespace Expr

def map (f : ν → μ) : Expr ν → Expr μ
  | name x => name (f x)
  | literal n => literal n
  | operate op l r => operate op (l.map f) (r.map f)

/-- All variables have the property. -/
def All (p : ν → Prop) : Expr ν → Prop
  | name x => p x
  | literal _ => True
  | operate _ l r => l.All p ∧ r.All p

/-- Operands come before their operator. -/
def code : Expr Nat → List Instruction
  | name address => [.load address]
  | literal n => [.constant n]
  | operate op l r => l.code ++ r.code ++ [.operate op]

lemma mem_code {e : Expr Nat} {i : Instruction} (h : i ∈ e.code) :
    (∃ a, i = .load a) ∨ (∃ v, i = .constant v) ∨ ∃ op, i = .operate op := by
  induction e with
  | name a => exact .inl ⟨a, List.mem_singleton.1 h⟩
  | literal n => exact .inr (.inl ⟨n, List.mem_singleton.1 h⟩)
  | operate op l r ihl ihr =>
    rw [code, List.mem_append, List.mem_append, List.mem_singleton] at h
    rcases h with (h | h) | h
    · exact ihl h
    · exact ihr h
    · exact .inr (.inr ⟨op, h⟩)

lemma All.map {f : ν → μ} {p : ν → Prop} {q : μ → Prop} (hf : ∀ x, p x → q (f x)) {e : Expr ν}
    (h : e.All p) : (e.map f).All q := by
  induction e with
  | name x => exact hf x h
  | literal n => trivial
  | operate op l r ihl ihr => exact ⟨ihl h.1, ihr h.2⟩

end Expr

namespace Command

def map (f : ν → μ) : Command ν → Command μ
  | empty => empty
  | assign x e => assign (f x) (e.map f)
  | read x => read (f x)
  | write e => write (e.map f)
  | loop e body => loop (e.map f) (body.map f)
  | seq c c' => seq (c.map f) (c'.map f)

def All (p : ν → Prop) : Command ν → Prop
  | empty => True
  | assign x e => p x ∧ e.All p
  | read x => p x
  | write e => e.All p
  | loop e body => e.All p ∧ body.All p
  | seq c c' => c.All p ∧ c'.All p

def loops : Command ν → Nat
  | loop _ body => body.loops + 1
  | seq c c' => c.loops + c'.loops
  | empty | assign .. | read _ | write _ => 0

/-- The code of a command, given the number of labels in use before it. -/
def code : Command Nat → Nat → List Instruction
  | empty, _ => []
  | assign address e, _ => e.code ++ [.store address]
  | read address, _ => [.read, .store address]
  | write e, _ => e.code ++ [.write]
  | loop e body, n =>
    .anchor ⟨n + 1⟩ :: e.code ++ .jumpIfFalse ⟨n + 2⟩ :: body.code (n + 2) ++
      [.jump ⟨n + 1⟩, .anchor ⟨n + 2⟩]
  | seq c c', n => c.code n ++ c'.code (n + 2 * c.loops)

lemma All.map {f : ν → μ} {p : ν → Prop} {q : μ → Prop} (hf : ∀ x, p x → q (f x))
    {c : Command ν} (h : c.All p) : (c.map f).All q := by
  induction c with
  | empty => trivial
  | assign x e => exact ⟨hf x h.1, h.2.map hf⟩
  | read x => exact hf x h
  | write e => exact Expr.All.map hf h
  | loop e body ih => exact ⟨h.1.map hf, ih h.2⟩
  | seq c c' ih ih' => exact ⟨ih h.1, ih' h.2⟩

lemma allocate_not_mem (c : Command Nat) (n m : Nat) : .allocate m ∉ c.code n := by
  have he : ∀ e : Expr Nat, .allocate m ∉ e.code := by
    intro e h
    simpa using Expr.mem_code h
  induction c generalizing n with
  | empty => simp [code]
  | assign a e => simp [code, he]
  | read a => simp [code]
  | write e => simp [code, he]
  | seq c c' ih ih' => simp [code, ih, ih']
  | loop e body ih => simp [code, he, ih]

end Command

namespace Grammar

/-! ### The tree of an expression -/

/-- What a category stands for. What may follow an operand makes a tree out of the tree on its
left. -/
abbrev ExprCategory.Tree : ExprCategory → Type
  | .factor | .term | .expression => Expr String
  | .moreFactors | .moreTerms | .comparison => Expr String → Expr String

def ExprTree.tree : {c : ExprCategory} → ExprTree c → c.Tree
  | _, .name x => .name x.1.lexeme
  | _, .number v => .literal (Text.decimalValue v.1.lexeme.toList)
  | _, .parens _ e _ => e.tree
  | _, .noFactors | _, .noTerms | _, .noComparison => fun l => l
  | _, .multiply _ f fs => fun l => fs.tree (.operate .multiply l f.tree)
  | _, .divide _ f fs => fun l => fs.tree (.operate .divide l f.tree)
  | _, .term f fs => fs.tree f.tree
  | _, .add _ t ts => fun l => ts.tree (.operate .add l t.tree)
  | _, .subtract _ t ts => fun l => ts.tree (.operate .subtract l t.tree)
  | _, .expression t ts => ts.tree t.tree
  | _, .lessEqual _ e => fun l => .operate .lessOrEqual l e.tree

/-- The code of a tree, or the code that a tree is extended by. -/
def ExprCategory.HasCode (address : String → Nat) :
    (c : ExprCategory) → c.Tree → List Instruction → Prop
  | .factor, e, code | .term, e, code | .expression, e, code => (e.map address).code = code
  | .moreFactors, f, code | .moreTerms, f, code | .comparison, f, code =>
    ∀ l : Expr String, ((f l).map address).code = (l.map address).code ++ code

lemma hasCode_operand {address : String → Nat} {e : Expr String} {f : Expr String → Expr String}
    {code more : List Instruction} (op : Operator) (he : (e.map address).code = code)
    (hf : ∀ l : Expr String, ((f l).map address).code = (l.map address).code ++ more)
    (l : Expr String) :
    ((f (.operate op l e)).map address).code =
      (l.map address).code ++ (code ++ .operate op :: more) := by
  rw [hf, Expr.map, Expr.code, he]
  simp

lemma ExprTree.code_tree (address : String → Nat) {c : ExprCategory} (D : ExprTree c) :
    c.HasCode address D.tree (D.code address) := by
  induction D with
  | name x => rfl
  | number v => rfl
  | parens l e r ih => exact ih
  | noFactors => exact fun l => (List.append_nil _).symm
  | noTerms => exact fun l => (List.append_nil _).symm
  | noComparison => exact fun l => (List.append_nil _).symm
  | multiply op f fs ihf ihfs => exact hasCode_operand .multiply ihf ihfs
  | divide op f fs ihf ihfs => exact hasCode_operand .divide ihf ihfs
  | term f fs ihf ihfs => exact (ihfs f.tree).trans (congrArg (· ++ _) ihf)
  | add op t ts iht ihts => exact hasCode_operand .add iht ihts
  | subtract op t ts iht ihts => exact hasCode_operand .subtract iht ihts
  | expression t ts iht ihts => exact (ihts t.tree).trans (congrArg (· ++ _) iht)
  | lessEqual op e ih =>
    exact hasCode_operand .lessOrEqual ih fun l => (List.append_nil _).symm

/-- The variables of a tree have the property, or those of any tree that is extended. -/
def ExprCategory.TreeAll (p : String → Prop) : (c : ExprCategory) → c.Tree → Prop
  | .factor, e | .term, e | .expression, e => e.All p
  | .moreFactors, f | .moreTerms, f | .comparison, f => ∀ l : Expr String, l.All p → (f l).All p

lemma ExprTree.all_tree {names : List String} {c : ExprCategory} (D : ExprTree c)
    (h : Known names D.yield) : c.TreeAll (· ∈ names) D.tree := by
  induction D with
  | name x => exact h x.1 (by simp [yield]) x.2
  | number v => trivial
  | parens l e r ih =>
    simp only [yield, List.cons_append, known_cons, known_append] at h
    exact ih h.2.1
  | noFactors => exact fun l hl => hl
  | noTerms => exact fun l hl => hl
  | noComparison => exact fun l hl => hl
  | multiply op f fs ihf ihfs =>
    simp only [yield, List.cons_append, known_cons, known_append] at h
    exact fun l hl => ihfs h.2.2 _ ⟨hl, ihf h.2.1⟩
  | divide op f fs ihf ihfs =>
    simp only [yield, List.cons_append, known_cons, known_append] at h
    exact fun l hl => ihfs h.2.2 _ ⟨hl, ihf h.2.1⟩
  | term f fs ihf ihfs =>
    simp only [yield, known_append] at h
    exact ihfs h.2 _ (ihf h.1)
  | add op t ts iht ihts =>
    simp only [yield, List.cons_append, known_cons, known_append] at h
    exact fun l hl => ihts h.2.2 _ ⟨hl, iht h.2.1⟩
  | subtract op t ts iht ihts =>
    simp only [yield, List.cons_append, known_cons, known_append] at h
    exact fun l hl => ihts h.2.2 _ ⟨hl, iht h.2.1⟩
  | expression t ts iht ihts =>
    simp only [yield, known_append] at h
    exact ihts h.2 _ (iht h.1)
  | lessEqual op e ih =>
    simp only [yield, known_cons] at h
    exact fun l hl => ⟨hl, ih h.2⟩

/-! ### The tree of a command -/

/-- A sequence of commands is a nest of pairs, and `begin` and `end` leave no trace. -/
def CommandTree.tree {c : CommandCategory} : CommandTree c → Command String
  | .assign x _ e => .assign x.1.lexeme e.tree
  | .loop _ e r _ body => .loop (r.tree e.tree) body.tree
  | .read _ _ x _ => .read x.1.lexeme
  | .write _ _ e _ => .write e.tree
  | .compound _ cs _ => cs.tree
  | .empty | .noCommands => .empty
  | .next _ c cs => .seq c.tree cs.tree
  | .commands c cs => .seq c.tree cs.tree

def Program.tree (P : Program) : Command String := P.body.tree

lemma CommandTree.loops_tree (address : String → Nat) {c : CommandCategory} (C : CommandTree c) :
    (C.tree.map address).loops = C.loops := by
  induction C <;> simp_all [tree, Command.map, Command.loops, loops]

lemma CommandTree.code_tree (address : String → Nat) {c : CommandCategory} (C : CommandTree c)
    (n : Nat) : (C.tree.map address).code n = C.code address n := by
  induction C generalizing n with
  | assign x op e =>
    have he := e.code_tree address
    exact congrArg (· ++ _) he
  | loop w e r d body ih =>
    have he := e.code_tree address
    have hr := r.code_tree address e.tree
    simp only [ExprCategory.HasCode] at he
    simp [tree, Command.map, Command.code, code, hr, he, ih]
  | read k l x r => rfl
  | write k l e r =>
    have he := e.code_tree address
    exact congrArg (· ++ _) he
  | compound b cs e ih => exact ih n
  | empty => rfl
  | noCommands => rfl
  | next s c cs ihc ihcs => simp [tree, Command.map, Command.code, code, ihc, ihcs, loops_tree]
  | commands c cs ihc ihcs =>
    simp [tree, Command.map, Command.code, code, ihc, ihcs, loops_tree]

lemma CommandTree.all_tree {names : List String} {c : CommandCategory} (C : CommandTree c)
    (h : Known names C.yield) : C.tree.All (· ∈ names) := by
  induction C with
  | assign x op e =>
    simp only [yield, known_cons] at h
    exact ⟨h.1 x.2, e.all_tree h.2.2⟩
  | loop w e r d body ih =>
    simp only [yield, List.cons_append, known_cons, known_append] at h
    exact ⟨r.all_tree h.2.1.2 _ (e.all_tree h.2.1.1), ih h.2.2.2⟩
  | read k l x r =>
    simp only [yield, known_cons] at h
    exact h.2.2.1 x.2
  | write k l e r =>
    simp only [yield, List.cons_append, known_cons, known_append] at h
    exact e.all_tree h.2.2.1
  | compound b cs e ih =>
    simp only [yield, List.cons_append, known_cons, known_append] at h
    exact ih h.2.1
  | empty => trivial
  | noCommands => trivial
  | next s c cs ihc ihcs =>
    simp only [yield, List.cons_append, known_cons, known_append] at h
    exact ⟨ihc h.2.1, ihcs h.2.2⟩
  | commands c cs ihc ihcs =>
    simp only [yield, known_append] at h
    exact ⟨ihc h.1, ihcs h.2⟩

end Grammar

end OnePass
