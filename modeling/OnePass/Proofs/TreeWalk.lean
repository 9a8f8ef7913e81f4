import Mathlib.Tactic.Set
import OnePass.Proofs.Lookahead
import OnePass.Proofs.Productions

/-!
The parser follows derivations: on the tokens of a derivation it does what a walk over the tree
does, and goes on with the goals below.

A repetition ends at the first token that cannot continue it, so the token after a derivation
matters. It has to be one that may follow the category in some program.
-/

namespace OnePass.Grammar

open Parse

/-! ### The walk -/

/-- What a walk over the tree, from left to right, adds to a draft. -/
def ExprTree.walk {c : ExprCategory} : ExprTree c → Draft → Except Stop Draft
  | .name x, d => do return d.emit (.load (← d.addressOf x.1))
  | .number v, d => do return d.emit (.constant (← d.valueOf v.1))
  | .parens _ e _, d => e.walk d
  | .noFactors, d | .noTerms, d | .noComparison, d => return d
  | .multiply _ f fs, d => do fs.walk ((← f.walk d).emit (.operate .multiply))
  | .divide _ f fs, d => do fs.walk ((← f.walk d).emit (.operate .divide))
  | .term f fs, d => do fs.walk (← f.walk d)
  | .add _ t ts, d => do ts.walk ((← t.walk d).emit (.operate .add))
  | .subtract _ t ts, d => do ts.walk ((← t.walk d).emit (.operate .subtract))
  | .expression t ts, d => do ts.walk (← t.walk d)
  | .lessEqual _ e, d => do return (← e.walk d).emit (.operate .lessOrEqual)

def CommandTree.walk {c : CommandCategory} : CommandTree c → Draft → Except Stop Draft
  | .assign x _ e, d => do
    let address ← d.addressOf x.1
    return (← e.walk d).emit (.store address)
  | .loop _ e r _ body, d => do
    let (again, d) := d.newLabel
    let (done, d) := d.newLabel
    let d ← e.walk (d.emit (.anchor again))
    let d ← r.walk d
    let d ← body.walk (d.emit (.jumpIfFalse done))
    return (d.emit (.jump again)).emit (.anchor done)
  | .read _ _ x _, d => do
    let address ← d.addressOf x.1
    return (d.emit .read).emit (.store address)
  | .write _ _ e _, d => do return (← e.walk d).emit .write
  | .compound _ cs _, d => cs.walk d
  | .empty, d | .noCommands, d => return d
  | .next _ c cs, d => do cs.walk (← c.walk d)
  | .commands c cs, d => do cs.walk (← c.walk d)

/-- The names of a group become known when all of it has been read. -/
def Declarations.walk (ds : Declarations) (d : Draft) : Except Stop Draft := do
  let d ← ds.groups.foldlM (fun d g => d.declareAll g.names) d
  return d.emit (.allocate d.symbols.size)

def Program.walk (P : Program) (d : Draft) : Except Stop Draft := do
  let d := d.emit .start
  let d ← P.declarations.elim (return d) (·.walk d)
  let d ← P.body.walk d
  return d.emit .halt

/-! ### Goals -/

/-- The goals that stand for a category. -/
def ExprCategory.goals : ExprCategory → List Goal
  | .factor => [.factor]
  | .moreFactors => [.moreFactors]
  | .term => Goal.term
  | .moreTerms => [.moreTerms]
  | .expression => Goal.expression
  | .comparison => [.comparison]

def CommandCategory.goals : CommandCategory → List Goal
  | .command => [.command]
  | .moreCommands => [.moreCommands]
  | .commands => Goal.commands

lemma run_goal (g : Goal) (gs : List Goal) (d : Draft) (t : Token) (ts : List Token) :
    run ⟨g :: gs, d⟩ (t :: ts) = g.meet d t >>= fun
      | .pass d => run ⟨gs, d⟩ (t :: ts)
      | .take d new => run ⟨new ++ gs, d⟩ ts := by
  rw [run_cons, step, settle]
  cases g.meet d t with
  | error e => rfl
  | ok r => cases r <;> rfl

lemma run_take {g : Goal} {gs new : List Goal} {d d' : Draft} {t : Token} {ts : List Token}
    (h : g.meet d t = .ok (.take d' new)) :
    run ⟨g :: gs, d⟩ (t :: ts) = run ⟨new ++ gs, d'⟩ ts := by
  rw [run_goal, h]; rfl

lemma run_pass {g : Goal} {gs : List Goal} {d d' : Draft} {t : Token} {ts : List Token}
    (h : g.meet d t = .ok (.pass d')) :
    run ⟨g :: gs, d⟩ (t :: ts) = run ⟨gs, d'⟩ (t :: ts) := by
  rw [run_goal, h]; rfl

lemma run_token {k : Kind} (x : Terminal k) (gs : List Goal) (d : Draft) (ts : List Token) :
    run ⟨.token k :: gs, d⟩ (x.1 :: ts) = run ⟨gs, d⟩ ts := by
  rw [run_take ((Goal.Takes.token x.2).meet_eq d), List.nil_append]

lemma run_emit (i : Instruction) (gs : List Goal) (d : Draft) {ks : List Kind} {ts : List Token}
    (h : Ahead ks ts) : run ⟨.emit i :: gs, d⟩ ts = run ⟨gs, d.emit i⟩ ts := by
  cases ts with
  | nil => exact h.elim
  | cons t ts => exact run_pass rfl

lemma run_met {g : Goal} (gs : List Goal) (d : Draft) {ks : List Kind} {ts : List Token}
    (hg : g.otherwise = .pass) (h : Ahead ks ts) (hn : ∀ k ∈ ks, ∀ m, ¬ Goal.Takes k g m) :
    run ⟨g :: gs, d⟩ ts = run ⟨gs, d⟩ ts := by
  cases ts with
  | nil => exact h.elim
  | cons t ts =>
    refine run_pass ?_
    rw [Goal.meet_of_not_takes (hn t.kind h), hg]
    rfl

/-! ### Expressions -/

/-- On the tokens of `D` the parser does what a walk over `D` does. -/
def ExprTree.Followed {c : ExprCategory} (D : ExprTree c) : Prop :=
  ∀ (gs : List Goal) (d : Draft) {rest : List Token}, Ahead c.follow rest →
    run ⟨c.goals ++ gs, d⟩ (D.yield ++ rest) = D.walk d >>= fun d => run ⟨gs, d⟩ rest

lemma run_operand {c m : ExprCategory} {D : ExprTree c} {E : ExprTree m} {g : Goal}
    (op : Operator) (hD : D.Followed) (hE : E.Followed) (hg : m.goals = [g]) (gs : List Goal)
    (d : Draft) {rest : List Token} (h : Ahead m.follow rest)
    (ha : Ahead c.follow (E.yield ++ rest)) :
    run ⟨Goal.operand c.goals op g ++ gs, d⟩ (D.yield ++ (E.yield ++ rest)) = (do
      E.walk ((← D.walk d).emit (.operate op))) >>= fun d => run ⟨gs, d⟩ rest := by
  rw [Goal.operand, List.append_assoc, hD _ d ha, bind_assoc]
  congr 1
  funext d
  simp only [List.cons_append, List.nil_append]
  rw [run_emit _ _ _ ha, ← hE _ _ h, hg, List.singleton_append]

/-- **The parser follows expressions.** -/
theorem ExprTree.followed {c : ExprCategory} (D : ExprTree c) : D.Followed := by
  induction D with
  | name x =>
    intro gs d rest _
    simp only [yield, List.singleton_append, ExprCategory.goals, walk]
    rw [run_goal, (Goal.Takes.load x.2).meet_eq]
    simp [Goal.Take.on]
  | number v =>
    intro gs d rest _
    simp only [yield, List.singleton_append, ExprCategory.goals, walk]
    rw [run_goal, (Goal.Takes.constant v.2).meet_eq]
    simp [Goal.Take.on]
  | parens l e r ih =>
    intro gs d rest _
    have ht : Goal.factor.meet d l.1 =
        .ok (.take d (ExprCategory.goals .expression ++ [.token .rightParen])) :=
      (Goal.Takes.parens l.2).meet_eq d
    simp only [yield, List.cons_append, List.append_assoc, List.nil_append]
    rw [ExprCategory.goals, List.singleton_append, run_take ht, List.append_assoc,
      ih _ _ (by simp [ExprCategory.follow])]
    simp only [List.singleton_append, run_token, walk]
  | noFactors =>
    intro gs d rest h
    refine run_met gs d rfl h fun k hk m hm => ?_
    cases hm with
    | multiply he | divide he => simp [ExprCategory.follow, he] at hk
  | multiply op f fs ihf ihfs =>
    intro gs d rest h
    have ht := (Goal.Takes.multiply op.2).meet_eq d
    simp only [yield, List.cons_append, List.append_assoc]
    exact (run_take ht).trans (run_operand .multiply ihf ihfs rfl gs d h (ahead_moreFactors fs h))
  | divide op f fs ihf ihfs =>
    intro gs d rest h
    have ht := (Goal.Takes.divide op.2).meet_eq d
    simp only [yield, List.cons_append, List.append_assoc]
    exact (run_take ht).trans (run_operand .divide ihf ihfs rfl gs d h (ahead_moreFactors fs h))
  | term f fs ihf ihfs =>
    intro gs d rest h
    have hf := ihf (ExprCategory.goals .moreFactors ++ gs) d (ahead_moreFactors fs h)
    simp only [yield, List.append_assoc, walk, bind_assoc]
    exact hf.trans (by simp only [ihfs gs _ h])
  | noTerms =>
    intro gs d rest h
    refine run_met gs d rfl h fun k hk m hm => ?_
    cases hm with
    | add he | subtract he => simp [ExprCategory.follow, he] at hk
  | add op t ts iht ihts =>
    intro gs d rest h
    have ht := (Goal.Takes.add op.2).meet_eq d
    simp only [yield, List.cons_append, List.append_assoc]
    exact (run_take ht).trans (run_operand .add iht ihts rfl gs d h (ahead_moreTerms ts h))
  | subtract op t ts iht ihts =>
    intro gs d rest h
    have ht := (Goal.Takes.subtract op.2).meet_eq d
    simp only [yield, List.cons_append, List.append_assoc]
    exact (run_take ht).trans (run_operand .subtract iht ihts rfl gs d h (ahead_moreTerms ts h))
  | expression t ts iht ihts =>
    intro gs d rest h
    have ht := iht (ExprCategory.goals .moreTerms ++ gs) d (ahead_moreTerms ts h)
    simp only [yield, List.append_assoc, walk, bind_assoc]
    exact ht.trans (by simp only [ihts gs _ h])
  | noComparison =>
    intro gs d rest h
    refine run_met gs d rfl h fun k hk m hm => ?_
    cases hm with
    | lessEqual he => simp [ExprCategory.follow, he] at hk
  | lessEqual op e ih =>
    intro gs d rest h
    have ht : Goal.comparison.meet d op.1 = .ok (.take d
        (ExprCategory.goals .expression ++ [.emit (.operate .lessOrEqual)])) :=
      (Goal.Takes.lessEqual op.2).meet_eq d
    rw [ExprCategory.goals, List.singleton_append, yield, List.cons_append, run_take ht,
      List.append_assoc, ih _ _ (h.mono (by simp [ExprCategory.follow])), walk, bind_assoc]
    simp only [List.singleton_append, run_emit _ _ _ h, pure_bind]

/-! ### Commands -/

def CommandTree.Followed {c : CommandCategory} (C : CommandTree c) : Prop :=
  ∀ (gs : List Goal) (d : Draft) {rest : List Token}, Ahead c.follow rest →
    run ⟨c.goals ++ gs, d⟩ (C.yield ++ rest) = C.walk d >>= fun d => run ⟨gs, d⟩ rest

lemma followed_assign (x : Terminal .identifier) (op : Terminal .assign)
    (e : ExprTree .expression) : (CommandTree.assign x op e).Followed := by
  intro gs d rest h
  have he : Ahead (ExprCategory.follow .expression) rest :=
    h.mono (by simp [CommandCategory.follow, ExprCategory.follow])
  simp only [CommandTree.yield, CommandCategory.goals, List.cons_append, List.nil_append,
    CommandTree.walk, bind_assoc]
  rw [run_goal, (Goal.Takes.assign x.2).meet_eq]
  simp only [Goal.Take.on, bind_assoc]
  congr 1
  funext address
  have hx := e.followed (.emit (.store address) :: gs) d he
  simp only [ExprCategory.goals] at hx
  simp [-run_cons, run_token, hx, run_emit _ _ _ h]

lemma followed_loop (w : Terminal .whileKw) (e : ExprTree .expression) (r : ExprTree .comparison)
    (k : Terminal .doKw) {body : CommandTree .command} (hb : body.Followed) :
    (CommandTree.loop w e r k body).Followed := by
  intro gs d rest h
  have hk : Ahead (ExprCategory.follow .comparison) (k.1 :: (body.yield ++ rest)) := by
    simp [ExprCategory.follow]
  have ht := (Goal.Takes.loop w.2).meet_eq d
  simp only [CommandTree.yield, CommandCategory.goals, List.cons_append, List.nil_append,
    List.append_assoc, CommandTree.walk, bind_assoc]
  rw [run_take ht, Goal.loop, List.append_assoc]
  have he := e.followed
  have hr := r.followed
  simp only [ExprTree.Followed, ExprCategory.goals, List.singleton_append] at he hr
  simp only [CommandTree.Followed, CommandCategory.goals, List.singleton_append] at hb
  simp only [List.cons_append, List.nil_append, he _ _ (ahead_comparison r hk), hr _ _ hk,
    run_emit _ _ _ hk, run_token, hb _ _ h, run_emit _ _ _ h, pure_bind]

lemma followed_read (k : Terminal .readKw) (l : Terminal .leftParen) (x : Terminal .identifier)
    (r : Terminal .rightParen) : (CommandTree.read k l x r).Followed := by
  intro gs d rest h
  have ht := (Goal.Takes.read k.2).meet_eq d
  simp only [CommandTree.yield, CommandCategory.goals, List.cons_append, List.nil_append]
  rw [run_take ht, List.cons_append, run_token, List.singleton_append, run_goal,
    (Goal.Takes.target x.2).meet_eq]
  simp only [Goal.Take.on, bind_assoc, CommandTree.walk]
  congr 1
  funext address
  simp [-run_cons, run_token, run_emit _ _ _ h]

lemma followed_write (k : Terminal .writeKw) (l : Terminal .leftParen)
    (e : ExprTree .expression) (r : Terminal .rightParen) :
    (CommandTree.write k l e r).Followed := by
  intro gs d rest h
  have ht : Goal.command.meet d k.1 = .ok (.take d (.token .leftParen ::
      ExprCategory.goals .expression ++ [.token .rightParen, .emit .write])) :=
    (Goal.Takes.write k.2).meet_eq d
  simp only [CommandTree.yield, CommandCategory.goals, List.cons_append, List.nil_append,
    List.append_assoc]
  rw [run_take ht, List.append_assoc, List.cons_append, run_token,
    e.followed _ _ (by simp [ExprCategory.follow])]
  simp only [List.cons_append, List.nil_append, run_token, run_emit _ _ _ h, CommandTree.walk,
    bind_assoc, pure_bind]

lemma followed_compound (b : Terminal .beginKw) {cs : CommandTree .commands}
    (e : Terminal .endKw) (hc : cs.Followed) : (CommandTree.compound b cs e).Followed := by
  intro gs d rest _
  have ht : Goal.command.meet d b.1 =
      .ok (.take d (CommandCategory.goals .commands ++ [.token .endKw])) :=
    (Goal.Takes.compound b.2).meet_eq d
  simp only [CommandTree.yield, List.cons_append, List.append_assoc, List.nil_append]
  rw [CommandCategory.goals, List.singleton_append, run_take ht, List.append_assoc,
    hc _ _ (by simp [CommandCategory.follow])]
  simp only [List.singleton_append, run_token, CommandTree.walk]

lemma run_sequence {c : CommandTree .command} {cs : CommandTree .moreCommands}
    (hc : c.Followed) (hcs : cs.Followed) (gs : List Goal) (d : Draft) {rest : List Token}
    (h : Ahead (CommandCategory.follow .moreCommands) rest) :
    run ⟨Goal.commands ++ gs, d⟩ (c.yield ++ (cs.yield ++ rest)) =
      (do cs.walk (← c.walk d)) >>= fun d => run ⟨gs, d⟩ rest := by
  have hd := hc (CommandCategory.goals .moreCommands ++ gs) d (ahead_moreCommands cs h)
  simp only [bind_assoc]
  exact hd.trans (by simp only [hcs gs _ h])

/-- **The parser follows commands.** -/
theorem CommandTree.followed {c : CommandCategory} (C : CommandTree c) : C.Followed := by
  induction C with
  | assign x op e => exact followed_assign x op e
  | loop w e r k body ih => exact followed_loop w e r k ih
  | read k l x r => exact followed_read k l x r
  | write k l e r => exact followed_write k l e r
  | compound b cs e ih => exact followed_compound b e ih
  | empty =>
    intro gs d rest h
    refine run_met gs d rfl h fun k hk m hm => ?_
    cases hm with
    | assign he | loop he | read he | write he | compound he =>
      simp [CommandCategory.follow, he] at hk
  | noCommands =>
    intro gs d rest h
    refine run_met gs d rfl h fun k hk m hm => ?_
    cases hm with
    | nextCommand he => simp [CommandCategory.follow, he] at hk
  | next s c cs ihc ihcs =>
    intro gs d rest h
    have ht := (Goal.Takes.nextCommand s.2).meet_eq d
    simp only [yield, List.cons_append, List.append_assoc]
    exact (run_take ht).trans (run_sequence ihc ihcs gs d h)
  | commands c cs ihc ihcs =>
    intro gs d rest h
    rw [yield, List.append_assoc]
    exact run_sequence ihc ihcs gs d h

/-! ### Programs -/

lemma run_moreNames (names : List Token) (more : List (Terminal .comma × Terminal .identifier))
    (c : Terminal .colon) (k : Terminal .integerKw) (s : Terminal .semicolon) (gs : List Goal)
    (d : Draft) (rest : List Token) :
    run ⟨.moreNames names :: gs, d⟩ (moreNamesYield more ++ c.1 :: k.1 :: s.1 :: rest) =
      d.declareAll (names ++ more.map fun p => p.2.1) >>= fun d =>
        run ⟨.moreGroups :: gs, d⟩ rest := by
  induction more generalizing names with
  | nil =>
    have hc : (Goal.moreNames names).meet d c.1 = .ok (.take d [.type, .closeGroup names]) :=
      (Goal.Takes.colon c.2).meet_eq d
    have hk := (Goal.Takes.integer k.2).meet_eq d
    simp only [moreNamesYield, List.flatMap_nil, List.nil_append, List.map_nil, List.append_nil]
    rw [run_take hc, List.cons_append, run_take hk, List.nil_append, List.singleton_append,
      run_goal, (Goal.Takes.endGroup s.2).meet_eq]
    simp only [Goal.Take.on, bind_assoc, pure_bind, List.singleton_append]
  | cons p more ih =>
    have hc : (Goal.moreNames names).meet d p.1.1 = .ok (.take d [.name names]) :=
      (Goal.Takes.comma p.1.2).meet_eq d
    have hx : (Goal.name names).meet d p.2.1 = .ok (.take d [.moreNames (names ++ [p.2.1])]) :=
      (Goal.Takes.name p.2.2).meet_eq d
    have hy : moreNamesYield (p :: more) = p.1.1 :: p.2.1 :: moreNamesYield more := by
      simp [moreNamesYield]
    rw [hy, List.cons_append, List.cons_append, run_take hc, List.singleton_append, run_take hx,
      List.singleton_append, ih (names ++ [p.2.1]), List.map_cons, List.append_assoc,
      List.singleton_append]

lemma run_moreGroups (groups : List Group) (gs : List Goal) (d : Draft) {rest : List Token}
    (h : Ahead [.beginKw] rest) :
    run ⟨.moreGroups :: gs, d⟩ (groups.flatMap Group.yield ++ rest) =
      groups.foldlM (fun d g => d.declareAll g.names) d >>= fun d =>
        run ⟨gs, d.emit (.allocate d.symbols.size)⟩ rest := by
  induction groups generalizing d with
  | nil =>
    cases rest with
    | nil => exact h.elim
    | cons t ts =>
      rw [ahead_cons, List.mem_singleton] at h
      have hm : Goal.moreGroups.meet d t =
          .ok (.pass (d.emit (.allocate d.symbols.size))) := by
        refine Goal.meet_of_not_takes (fun m hm => ?_) d
        cases hm with
        | nextGroup he => cases h.symm.trans he
      exact run_pass hm
  | cons g groups ih =>
    have hm : Goal.moreGroups.meet d g.first.1 = .ok (.take d [.moreNames [g.first.1]]) :=
      (Goal.Takes.nextGroup g.first.2).meet_eq d
    simp only [List.flatMap_cons, Group.yield, List.cons_append, List.append_assoc,
      List.nil_append, List.foldlM_cons, bind_assoc]
    rw [run_take hm, List.singleton_append, run_moreNames]
    simp only [ih, Group.names, List.singleton_append]

lemma run_declarations (ds : Option Declarations) (gs : List Goal) (d : Draft)
    {rest : List Token} (h : Ahead [.beginKw] rest) :
    run ⟨.declarations :: gs, d⟩ (ds.elim [] Declarations.yield ++ rest) =
      ds.elim (return d) (·.walk d) >>= fun d => run ⟨gs, d⟩ rest := by
  cases ds with
  | none =>
    refine run_met gs d rfl h fun k hk m hm => ?_
    cases hm with
    | var he => simp [he] at hk
  | some ds =>
    have hv := (Goal.Takes.var ds.var.2).meet_eq d
    have hx : (Goal.name []).meet d ds.first.first.1 =
        .ok (.take d [.moreNames [ds.first.first.1]]) :=
      (Goal.Takes.name ds.first.first.2).meet_eq d
    simp only [Option.elim_some, Declarations.yield, Declarations.groups, Declarations.walk,
      List.flatMap_cons, Group.yield, List.cons_append, List.append_assoc, List.nil_append]
    rw [run_take hv, List.singleton_append, run_take hx, List.singleton_append, run_moreNames]
    simp only [run_moreGroups _ _ _ h, List.foldlM_cons, bind_assoc, pure_bind, Group.names,
      List.singleton_append]

/-- **The parser follows programs.** -/
theorem Program.run_yield (P : Program) (e : Terminal .eof) (d : Draft) :
    run ⟨Goal.program, d⟩ (P.yield ++ [e.1]) = P.walk d >>= fun d => .ok ⟨[], d⟩ := by
  set rest := P.begin.1 :: (P.body.yield ++ [P.finish.1, P.dot.1, e.1]) with hrest
  have hb : Ahead [.beginKw] rest := by simp [hrest]
  have hs : Ahead [.varKw, .beginKw] (P.declarations.elim [] Declarations.yield ++ rest) := by
    cases P.declarations with
    | none => exact hb.mono (by simp)
    | some ds => simp [Declarations.yield]
  have hf : Ahead (CommandCategory.follow .commands) [P.finish.1, P.dot.1, e.1] := by
    simp [CommandCategory.follow]
  have hc := P.body.followed [.token .endKw, .token .dot, .emit .halt, .token .eof]
  have hd : Ahead [.eof] [e.1] := by simp
  have hy : P.yield ++ [e.1] = P.program.1 :: P.name.1 :: P.semicolon.1 ::
      (P.declarations.elim [] Declarations.yield ++ rest) := by
    simp [Program.yield, Program.header, hrest]
  rw [hy, Goal.program, run_token, run_token, run_token, run_emit _ _ _ hs,
    run_declarations _ _ _ hb, Program.walk]
  simp only [CommandCategory.goals, Goal.commands, List.cons_append, List.nil_append] at hc
  simp only [hrest, run_token, hc _ hf, run_emit _ _ _ hd, run_nil, bind_assoc, pure_bind]

end OnePass.Grammar
