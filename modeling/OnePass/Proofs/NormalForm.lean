import OnePass.Proofs.Preservation

/-!
What the code of a program says about it.

Code does not tell everything about a text: names become addresses, literals become numbers, and
parentheses, compounds and empty commands leave no trace. The normal form of a program keeps what
is left. Code can be read back to the normal form, and the normal form is enough to write it, so
two programs have the same code when they have the same storage and the same normal form.
-/

namespace OnePass

/-- Commands without empty ones and compounds, in lists. -/
inductive Statement (ν : Type)
  | assign (x : ν) (e : Expr ν)
  | read (x : ν)
  | write (e : Expr ν)
  | loop (condition : Expr ν) (body : List (Statement ν))

variable {ν μ : Type}

/-- The statements of a command, in order. -/
def Command.flatten : Command ν → List (Statement ν)
  | empty => []
  | assign x e => [.assign x e]
  | read x => [.read x]
  | write e => [.write e]
  | loop e body => [.loop e body.flatten]
  | seq c c' => c.flatten ++ c'.flatten

/-! ### From statements to code -/

namespace Statement

mutual

def loops : Statement ν → Nat
  | loop _ body => loopsAll body + 1
  | assign .. | read _ | write _ => 0

def loopsAll : List (Statement ν) → Nat
  | [] => 0
  | s :: ss => s.loops + loopsAll ss

end

mutual

/-- The code of a statement, given the number of labels in use before it. -/
def code : Statement Nat → Nat → List Instruction
  | assign address e, _ => e.code ++ [.store address]
  | read address, _ => [.read, .store address]
  | write e, _ => e.code ++ [.write]
  | loop e body, n =>
    .anchor ⟨n + 1⟩ :: e.code ++ .jumpIfFalse ⟨n + 2⟩ :: codeAll body (n + 2) ++
      [.jump ⟨n + 1⟩, .anchor ⟨n + 2⟩]

def codeAll : List (Statement Nat) → Nat → List Instruction
  | [], _ => []
  | s :: ss, n => s.code n ++ codeAll ss (n + 2 * s.loops)

end

lemma loopsAll_append (ss ss' : List (Statement ν)) :
    loopsAll (ss ++ ss') = loopsAll ss + loopsAll ss' := by
  induction ss with
  | nil => simp [loopsAll]
  | cons s ss ih => simp [loopsAll, ih, Nat.add_assoc]

lemma codeAll_append (ss ss' : List (Statement Nat)) (n : Nat) :
    codeAll (ss ++ ss') n = codeAll ss n ++ codeAll ss' (n + 2 * loopsAll ss) := by
  induction ss generalizing n with
  | nil => simp [codeAll, loopsAll]
  | cons s ss ih => simp [codeAll, loopsAll, ih, Nat.mul_add, Nat.add_assoc]

end Statement

namespace Command

open Statement

lemma loopsAll_flatten (c : Command ν) : loopsAll c.flatten = c.loops := by
  induction c with
  | seq c c' ih ih' => rw [flatten, loopsAll_append, ih, ih', loops]
  | loop e body ih => simp [flatten, loopsAll, Statement.loops, ih, loops]
  | _ => simp [flatten, loopsAll, Statement.loops, loops]

lemma codeAll_flatten (c : Command Nat) (n : Nat) : codeAll c.flatten n = c.code n := by
  induction c generalizing n with
  | seq c c' ih ih' => rw [flatten, codeAll_append, ih, ih', loopsAll_flatten, code]
  | loop e body ih => simp [flatten, codeAll, Statement.code, ih, code]
  | _ => simp [flatten, codeAll, Statement.code, code]

end Command

/-! ### From code to statements -/

/-- What has been read of some code. -/
structure Reader where
  /-- The statements of the list in which the code stands. -/
  done : List (Statement Nat)
  /-- The expressions that are on the stack. A value from the input is on it as `none`. -/
  operands : List (Option (Expr Nat))
  /-- The loops around, the innermost first: what comes before them, and their conditions. -/
  enclosing : List (List (Statement Nat) × Expr Nat)

namespace Reader

def push (s : Reader) (e : Option (Expr Nat)) : Reader := { s with operands := e :: s.operands }

def finish (s : Reader) (x : Statement Nat) : Reader := { s with done := s.done ++ [x] }

/-- Reads an instruction. A loop begins at the jump out of it and ends at the jump back. -/
def step (s : Reader) : Instruction → Reader
  | .load a => s.push (some (.name a))
  | .constant v => s.push (some (.literal v.toNat))
  | .read => s.push none
  | .operate op =>
    match s.operands with
    | some r :: some l :: rest => { s with operands := some (.operate op l r) :: rest }
    | _ => s
  | .store a =>
    match s.operands with
    | some e :: rest => { s with operands := rest }.finish (.assign a e)
    | none :: rest => { s with operands := rest }.finish (.read a)
    | [] => s
  | .write =>
    match s.operands with
    | some e :: rest => { s with operands := rest }.finish (.write e)
    | _ => s
  | .jumpIfFalse _ =>
    match s.operands with
    | some e :: rest => ⟨[], rest, (s.done, e) :: s.enclosing⟩
    | _ => s
  | .jump _ =>
    match s.enclosing with
    | (before, e) :: rest => ⟨before ++ [.loop e s.done], s.operands, rest⟩
    | [] => s
  | .start | .allocate _ | .anchor _ | .halt => s

def run (s : Reader) (code : List Instruction) : Reader := code.foldl step s

@[simp] lemma run_nil (s : Reader) : s.run [] = s := rfl

@[simp] lemma run_cons (s : Reader) (i : Instruction) (code : List Instruction) :
    s.run (i :: code) = (s.step i).run code := rfl

@[simp] lemma run_append (s : Reader) (code more : List Instruction) :
    s.run (code ++ more) = (s.run code).run more := by
  simp [run, List.foldl_append]

lemma run_expr (e : Expr Nat) (s : Reader) : s.run e.code = s.push (some e) := by
  induction e generalizing s with
  | name a => rfl
  | literal v => rfl
  | operate op l r ihl ihr =>
    rw [Expr.code, run_append, run_append, ihl, ihr]
    rfl

/-- **Code can be read back**: reading the code of a command gives its statements. -/
theorem run_command (c : Command Nat) (n : Nat) (s : Reader) :
    s.run (c.code n) = { s with done := s.done ++ c.flatten } := by
  induction c generalizing n s with
  | empty => simp [Command.code, Command.flatten]
  | assign a e =>
    rw [Command.code, run_append, run_expr]
    rfl
  | read a => rfl
  | write e =>
    rw [Command.code, run_append, run_expr]
    rfl
  | seq c c' ih ih' =>
    rw [Command.code, run_append, ih, ih', Command.flatten, List.append_assoc]
  | loop e body ih =>
    -- Loops nest like their jumps, so the labels need not be read.
    have hs : (s.step (.anchor ⟨n + 1⟩)).run e.code = s.push (some e) := run_expr e s
    have hb : (s.push (some e)).step (.jumpIfFalse ⟨n + 2⟩) =
        ⟨[], s.operands, (s.done, e) :: s.enclosing⟩ := rfl
    rw [Command.code, run_append, run_append, run_cons s, hs, run_cons (s.push _), hb, ih]
    rfl

end Reader

/-! ### Expressions -/

mutual

def Statement.expressions : Statement ν → List (Expr ν)
  | .assign _ e | .write e => [e]
  | .read _ => []
  | .loop e body => e :: Statement.expressionsAll body

def Statement.expressionsAll : List (Statement ν) → List (Expr ν)
  | [] => []
  | s :: ss => s.expressions ++ Statement.expressionsAll ss

end

def Command.expressions : Command ν → List (Expr ν)
  | empty | read _ => []
  | assign _ e | write e => [e]
  | loop e body => e :: body.expressions
  | seq c c' => c.expressions ++ c'.expressions

lemma Statement.expressionsAll_append (ss ss' : List (Statement ν)) :
    expressionsAll (ss ++ ss') = expressionsAll ss ++ expressionsAll ss' := by
  induction ss with
  | nil => simp [expressionsAll]
  | cons s ss ih => simp [expressionsAll, ih]

namespace Command

open Statement

lemma expressionsAll_flatten (c : Command ν) : expressionsAll c.flatten = c.expressions := by
  induction c with
  | seq c c' ih ih' => rw [flatten, expressionsAll_append, ih, ih', expressions]
  | loop e body ih => simp [flatten, expressionsAll, Statement.expressions, ih, expressions]
  | _ => simp [flatten, expressionsAll, Statement.expressions, expressions]

lemma expressions_map (f : ν → μ) (c : Command ν) :
    (c.map f).expressions = c.expressions.map (Expr.map f) := by
  induction c <;> simp_all [map, expressions]

end Command

lemma Expr.map_map_of_all {f : ν → μ} {g : μ → ν} {p : ν → Prop} (hg : ∀ x, p x → g (f x) = x)
    {e : Expr ν} (he : e.All p) : (e.map f).map g = e := by
  induction e with
  | name x => exact congrArg Expr.name (hg x he)
  | literal n => rfl
  | operate op l r ihl ihr => rw [map, map, ihl he.1, ihr he.2]

lemma Command.map_map_of_all {f : ν → μ} {g : μ → ν} {p : ν → Prop} (hg : ∀ x, p x → g (f x) = x)
    {c : Command ν} (hc : c.All p) : (c.map f).map g = c := by
  induction c with
  | empty => rfl
  | assign x e => rw [map, map, hg x hc.1, Expr.map_map_of_all hg hc.2]
  | read x => rw [map, map, hg x hc]
  | write e => rw [map, map, Expr.map_map_of_all hg hc]
  | loop e body ih => rw [map, map, Expr.map_map_of_all hg hc.1, ih hc.2]
  | seq c c' ih ih' => rw [map, map, ih hc.1, ih' hc.2]

namespace Grammar

/-! ### The normal form of a program -/

namespace Program

/-- The statements of a program, with addresses in place of names. -/
def normalForm (P : Program) : List (Statement Nat) := P.resolved.flatten

lemma allocation_eq (P : Program) :
    P.allocation = if P.declarations.isSome then [.allocate P.variableNames.length] else [] := by
  cases hd : P.declarations <;> simp [allocation, variableNames, names, hd]

lemma code_eq_normalForm (P : Program) :
    P.code = .start :: P.allocation ++ (Statement.codeAll P.normalForm 0 ++ [.halt]) := by
  rw [P.code_eq, normalForm, Command.codeAll_flatten]

lemma run_code (P : Program) : (Reader.run ⟨[], [], []⟩ P.code).done = P.normalForm := by
  have ha : Reader.run ⟨[], [], []⟩ (.start :: P.allocation) = ⟨[], [], []⟩ := by
    rw [P.allocation_eq]
    split <;> rfl
  rw [P.code_eq, Reader.run_append, ha, Reader.run_append, Reader.run_command]
  rfl

/-- **Code is the storage and the normal form.** -/
theorem code_eq_iff {P Q : Program} :
    P.code = Q.code ↔ P.declarations.isSome = Q.declarations.isSome ∧
      P.variableNames.length = Q.variableNames.length ∧ P.normalForm = Q.normalForm := by
  constructor
  · intro h
    have hn : P.normalForm = Q.normalForm := by rw [← P.run_code, h, Q.run_code]
    -- Only code with a `var` section reserves cells; without one there are no variables.
    have hs : ∀ n, (P.declarations.isSome ∧ n = P.variableNames.length) ↔
        (Q.declarations.isSome ∧ n = Q.variableNames.length) := by
      intro n
      rw [← P.allocate_mem_code, h, Q.allocate_mem_code]
    cases hP : P.declarations with
    | some ds =>
      have hQ := (hs _).1 ⟨by simp [hP], rfl⟩
      exact ⟨by simp [hQ.1], hQ.2, hn⟩
    | none =>
      have hQ : Q.declarations = none := by
        cases hQ : Q.declarations with
        | none => rfl
        | some ds => simpa [hP] using ((hs _).2 ⟨by simp [hQ], rfl⟩).1
      exact ⟨by simp [hQ], by simp [variableNames, names, hP, hQ], hn⟩
  · rintro ⟨hd, hl, hn⟩
    rw [P.code_eq_normalForm, Q.code_eq_normalForm, P.allocation_eq, Q.allocation_eq, hd, hl, hn]

lemma map_resolved {P : Program} (hP : P.WellNamed) :
    P.resolved.map (fun a => P.variableNames[a]?.getD "") = P.tree := by
  refine Command.map_map_of_all (p := (· ∈ P.variableNames)) (fun x hx => ?_) (P.body.all_tree hP.2)
  have hlt : addressIn P.variableNames x < P.variableNames.length := List.idxOf_lt_length_iff.2 hx
  simp only [List.getElem?_eq_getElem hlt, Option.getD_some]
  exact List.getElem_idxOf hlt

lemma expressions_eq {P Q : Program} (hP : P.WellNamed) (hQ : Q.WellNamed)
    (hv : P.variableNames = Q.variableNames) (hn : P.normalForm = Q.normalForm) :
    P.tree.expressions = Q.tree.expressions := by
  have hr : P.resolved.expressions = Q.resolved.expressions := by
    rw [← Command.expressionsAll_flatten, ← Command.expressionsAll_flatten]
    exact congrArg _ hn
  rw [← map_resolved hP, ← map_resolved hQ, Command.expressions_map, Command.expressions_map, hr,
    hv]

end Program

/-! ### Redundant notation -/

namespace ExprTree

def appendFactors : ExprTree .moreFactors → ExprTree .moreFactors → ExprTree .moreFactors
  | .noFactors, gs => gs
  | .multiply op f fs, gs => .multiply op f (fs.appendFactors gs)
  | .divide op f fs, gs => .divide op f (fs.appendFactors gs)

def appendTerms : ExprTree .moreTerms → ExprTree .moreTerms → ExprTree .moreTerms
  | .noTerms, us => us
  | .add op t ts, us => .add op t (ts.appendTerms us)
  | .subtract op t ts, us => .subtract op t (ts.appendTerms us)

/-- `D.Padded D'`: with redundant parentheses, `D` is `D'`. Tokens may stand elsewhere. -/
inductive Padded : {c : ExprCategory} → ExprTree c → ExprTree c → Prop
  /-- A factor in parentheses -/
  | factor (l f r) : Padded f (.parens l (.expression (.term f .noFactors) .noTerms) r)
  /-- The first factors of a term in parentheses -/
  | factors (l f fs r gs) : Padded (.term f (fs.appendFactors gs))
      (.term (.parens l (.expression (.term f fs) .noTerms) r) gs)
  /-- The first terms of an expression in parentheses -/
  | terms (l t ts r us) : Padded (.expression t (ts.appendTerms us))
      (.expression (.term (.parens l (.expression t ts) r) .noFactors) us)
  | trans {c : ExprCategory} {D D' D'' : ExprTree c} (h : Padded D D') (h' : Padded D' D'') :
      Padded D D''
  | name {x x'} (h : x.1.lexeme = x'.1.lexeme) : Padded (.name x) (.name x')
  | number {v v'} (h : v.1.lexeme = v'.1.lexeme) : Padded (.number v) (.number v')
  | parens {l l' e e' r r'} (h : Padded e e') : Padded (.parens l e r) (.parens l' e' r')
  | noFactors : Padded .noFactors .noFactors
  | multiply {op op' f f' fs fs'} (h : Padded f f') (hs : Padded fs fs') :
      Padded (.multiply op f fs) (.multiply op' f' fs')
  | divide {op op' f f' fs fs'} (h : Padded f f') (hs : Padded fs fs') :
      Padded (.divide op f fs) (.divide op' f' fs')
  | term {f f' fs fs'} (h : Padded f f') (hs : Padded fs fs') : Padded (.term f fs) (.term f' fs')
  | noTerms : Padded .noTerms .noTerms
  | add {op op' t t' ts ts'} (h : Padded t t') (hs : Padded ts ts') :
      Padded (.add op t ts) (.add op' t' ts')
  | subtract {op op' t t' ts ts'} (h : Padded t t') (hs : Padded ts ts') :
      Padded (.subtract op t ts) (.subtract op' t' ts')
  | expression {t t' ts ts'} (h : Padded t t') (hs : Padded ts ts') :
      Padded (.expression t ts) (.expression t' ts')
  | noComparison : Padded .noComparison .noComparison
  | lessEqual {op op' e e'} (h : Padded e e') : Padded (.lessEqual op e) (.lessEqual op' e')

lemma tree_appendFactors (fs gs : ExprTree .moreFactors) (l : Expr String) :
    (fs.appendFactors gs).tree l = gs.tree (fs.tree l) := by
  fun_induction appendFactors fs gs generalizing l with
  | case1 => rfl
  | case2 gs op f fs ih => exact ih _
  | case3 gs op f fs ih => exact ih _

lemma tree_appendTerms (ts us : ExprTree .moreTerms) (l : Expr String) :
    (ts.appendTerms us).tree l = us.tree (ts.tree l) := by
  fun_induction appendTerms ts us generalizing l with
  | case1 => rfl
  | case2 us op t ts ih => exact ih _
  | case3 us op t ts ih => exact ih _

lemma yield_appendFactors (fs gs : ExprTree .moreFactors) :
    (fs.appendFactors gs).yield = fs.yield ++ gs.yield := by
  fun_induction appendFactors fs gs <;> simp_all [yield]

lemma yield_appendTerms (ts us : ExprTree .moreTerms) :
    (ts.appendTerms us).yield = ts.yield ++ us.yield := by
  fun_induction appendTerms ts us <;> simp_all [yield]

variable {c : ExprCategory} {D D' : ExprTree c}

lemma Padded.tree_eq (h : Padded D D') : D.tree = D'.tree := by
  induction h with
  | factor l f r => rfl
  | factors l f fs r gs => exact tree_appendFactors fs gs f.tree
  | terms l t ts r us => exact tree_appendTerms ts us t.tree
  | trans _ _ ih ih' => exact ih.trans ih'
  | _ => simp_all [tree]

lemma Padded.known {names : List String} (h : Padded D D') (hk : Known names D.yield) :
    Known names D'.yield := by
  induction h with
  | factors l f fs r gs => simp_all [yield, yield_appendFactors]
  | terms l t ts r us => simp_all [yield, yield_appendTerms]
  | trans _ _ ih ih' => exact ih' (ih hk)
  | _ => simp_all [yield]

end ExprTree

namespace CommandTree

def append : CommandTree .moreCommands → CommandTree .moreCommands → CommandTree .moreCommands
  | .noCommands, ds => ds
  | .next s c cs, ds => .next s c (cs.append ds)

/-- `C.Padded C'`: with redundant parentheses, compounds and semicolons, `C` is `C'`. Tokens may
stand elsewhere. -/
inductive Padded : {c : CommandCategory} → CommandTree c → CommandTree c → Prop
  /-- A command in a compound -/
  | compound (b c e) : Padded c (.compound b (.commands c .noCommands) e)
  /-- The first commands of a list in a compound -/
  | firstCompound (b c cs e ds) :
      Padded (.commands c (cs.append ds)) (.commands (.compound b (.commands c cs) e) ds)
  /-- Commands of a list in a compound -/
  | nextCompound (s b c cs e ds) :
      Padded (.next s c (cs.append ds)) (.next s (.compound b (.commands c cs) e) ds)
  /-- A semicolon before a list -/
  | firstSemicolon (s c cs) : Padded (.commands c cs) (.commands .empty (.next s c cs))
  /-- A semicolon after a command -/
  | nextSemicolon (s cs) : Padded cs (.next s .empty cs)
  | trans {c : CommandCategory} {C C' C'' : CommandTree c} (h : Padded C C') (h' : Padded C' C'') :
      Padded C C''
  | assign {x x' op op' e e'} (hx : x.1.lexeme = x'.1.lexeme) (he : e.Padded e') :
      Padded (.assign x op e) (.assign x' op' e')
  | loop {w w' e e' r r' d d' c c'} (he : e.Padded e') (hr : r.Padded r') (hc : Padded c c') :
      Padded (.loop w e r d c) (.loop w' e' r' d' c')
  | read {k k' l l' x x' r r'} (hx : x.1.lexeme = x'.1.lexeme) :
      Padded (.read k l x r) (.read k' l' x' r')
  | write {k k' l l' e e' r r'} (he : e.Padded e') : Padded (.write k l e r) (.write k' l' e' r')
  | inside {b b' cs cs' e e'} (h : Padded cs cs') : Padded (.compound b cs e) (.compound b' cs' e')
  | empty : Padded .empty .empty
  | noCommands : Padded .noCommands .noCommands
  | next {s s' c c' cs cs'} (hc : Padded c c') (hcs : Padded cs cs') :
      Padded (.next s c cs) (.next s' c' cs')
  | commands {c c' cs cs'} (hc : Padded c c') (hcs : Padded cs cs') :
      Padded (.commands c cs) (.commands c' cs')

lemma flatten_append (f : String → Nat) (cs ds : CommandTree .moreCommands) :
    ((cs.append ds).tree.map f).flatten = (cs.tree.map f).flatten ++ (ds.tree.map f).flatten := by
  fun_induction append cs ds with
  | case1 => rfl
  | case2 ds s c cs ih => simp [tree, Command.map, Command.flatten, ih]

lemma yield_append (cs ds : CommandTree .moreCommands) :
    (cs.append ds).yield = cs.yield ++ ds.yield := by
  fun_induction append cs ds with
  | case1 => rfl
  | case2 ds s c cs ih => simp [yield, ih]

variable {c : CommandCategory} {C C' : CommandTree c}

lemma Padded.flatten_eq (f : String → Nat) (h : Padded C C') :
    (C.tree.map f).flatten = (C'.tree.map f).flatten := by
  induction h with
  | firstCompound b c cs e ds => simp [tree, Command.map, Command.flatten, flatten_append]
  | nextCompound s b c cs e ds => simp [tree, Command.map, Command.flatten, flatten_append]
  | trans _ _ ih ih' => exact ih.trans ih'
  | assign hx he => simp [tree, hx, he.tree_eq]
  | loop he hr _ ih => simp [tree, Command.map, Command.flatten, he.tree_eq, hr.tree_eq, ih]
  | read hx => simp [tree, hx]
  | write he => simp [tree, he.tree_eq]
  | inside _ ih => exact ih
  | _ => simp_all [tree, Command.map, Command.flatten]

lemma Padded.known {names : List String} (h : Padded C C') (hk : Known names C.yield) :
    Known names C'.yield := by
  induction h with
  | firstCompound b c cs e ds => simp_all [yield, yield_append]
  | nextCompound s b c cs e ds => simp_all [yield, yield_append]
  | trans _ _ ih ih' => exact ih' (ih hk)
  | assign hx he =>
    simp only [yield, known_cons] at hk ⊢
    exact ⟨by simpa [← hx] using hk.1, by simp, he.known hk.2.2⟩
  | loop he hr _ ih =>
    simp only [yield, List.cons_append, known_cons, known_append] at hk ⊢
    exact ⟨by simp, ⟨he.known hk.2.1.1, hr.known hk.2.1.2⟩, by simp, ih hk.2.2.2⟩
  | read hx => simp_all [yield]
  | write he =>
    simp only [yield, List.cons_append, known_cons, known_append] at hk ⊢
    exact ⟨by simp, by simp, he.known hk.2.2.1, by simp, by simp⟩
  | _ => simp_all [yield]

end CommandTree

/-- The same variables, and the same body but for redundant notation. -/
structure Program.Padded (P Q : Program) : Prop where
  section_eq : P.declarations.isSome = Q.declarations.isSome
  variableNames_eq : P.variableNames = Q.variableNames
  body : P.body.Padded Q.body

namespace Program.Padded

variable {P Q : Program}

lemma wellNamed (h : P.Padded Q) (hP : P.WellNamed) : Q.WellNamed :=
  ⟨h.variableNames_eq ▸ hP.1, h.variableNames_eq ▸ h.body.known hP.2⟩

lemma code_eq (h : P.Padded Q) : P.code = Q.code := by
  refine code_eq_iff.2 ⟨h.section_eq, congrArg _ h.variableNames_eq, ?_⟩
  rw [normalForm, resolved, h.variableNames_eq]
  exact h.body.flatten_eq _

end Program.Padded

/-- **Code identifies a program up to its notation**: two texts have the same code if and only if
they have the same storage and the same normal form. So redundant notation never changes the code,
and a change to the tree of an expression always does. -/
theorem compile_eq_iff_normalForm (source source' : String) (code code' : List Instruction)
    (h : compile source = .ok code) (h' : compile source' = .ok code') :
    ∃ P P' : Program, (∀ Q : Program, Q.Derives source ↔ Q = P) ∧
      (∀ Q : Program, Q.Derives source' ↔ Q = P') ∧
      (compile source = compile source' ↔ P.declarations.isSome = P'.declarations.isSome ∧
        P.variableNames.length = P'.variableNames.length ∧ P.normalForm = P'.normalForm) ∧
      (∀ (Q : Program) (padded : String), Q.Derives padded → P.Padded Q →
        compile padded = compile source) ∧
      (P.variableNames = P'.variableNames → P.tree.expressions ≠ P'.tree.expressions →
        compile source ≠ compile source') := by
  obtain ⟨P, e, ht, hP, rfl⟩ := exists_program_of_compile h
  obtain ⟨P', e', ht', hP', rfl⟩ := exists_program_of_compile h'
  have hd : P.Derives source := ⟨e, ht⟩
  have hd' : P'.Derives source' := ⟨e', ht'⟩
  have hcode : compile source = compile source' ↔ P.code = P'.code := by
    rw [h, h', Except.ok.injEq]
  refine ⟨P, P', fun Q => ⟨fun hQ => hQ.eq hd, fun hQ => hQ ▸ hd⟩,
    fun Q => ⟨fun hQ => hQ.eq hd', fun hQ => hQ ▸ hd'⟩, hcode.trans Program.code_eq_iff, ?_, ?_⟩
  · intro Q padded hQ hpad
    rw [hQ.compile (hpad.wellNamed hP), h, hpad.code_eq]
  · intro hv hne heq
    have hn := (Program.code_eq_iff.1 (hcode.1 heq)).2.2
    exact hne (Program.expressions_eq hP hP' hv hn)

/-- A text whose operators group from the left. -/
def plain : String :=
  "program p; var a, b: integer; begin a := 8 - b - 1; while a <= b do read(a) end."

/-- The same program in other words. -/
def ornate : String :=
  "program q; var x: integer; y: integer; begin; begin x := (8 - (y)) - 01; end; " ++
    "while (x) <= y do begin; read(x) end end."

def plainCode : List Instruction :=
  [.start, .allocate 2, .constant 8, .load 1, .operate .subtract, .constant 1, .operate .subtract,
    .store 0, .anchor ⟨1⟩, .load 0, .load 1, .operate .lessOrEqual, .jumpIfFalse ⟨2⟩, .read,
    .store 0, .jump ⟨1⟩, .anchor ⟨2⟩, .halt]

theorem compile_eq_iff_normalForm_ornate :
    compile plain = .ok plainCode ∧ compile ornate = .ok plainCode ∧
      ∃ P P' : Program, (∀ Q : Program, Q.Derives plain ↔ Q = P) ∧
        (∀ Q : Program, Q.Derives ornate ↔ Q = P') ∧
        P.declarations.isSome = P'.declarations.isSome ∧
        P.variableNames.length = P'.variableNames.length ∧ P.normalForm = P'.normalForm ∧
        ∀ (Q : Program) (padded : String), Q.Derives padded → P.Padded Q →
          compile padded = .ok plainCode := by
  have h : compile plain = .ok plainCode := by decide +kernel
  have h' : compile ornate = .ok plainCode := by decide +kernel
  obtain ⟨P, P', hP, hP', heq, hpad, -⟩ :=
    compile_eq_iff_normalForm plain ornate plainCode plainCode h h'
  obtain ⟨hd, hl, hn⟩ := heq.1 (h.trans h'.symm)
  exact ⟨h, h', P, P', hP, hP', hd, hl, hn, fun Q padded hQ hQ' => (hpad Q padded hQ hQ').trans h⟩

end Grammar

end OnePass
