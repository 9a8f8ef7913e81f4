import OnePass.Proofs.SyntaxErrors

/-!
Which values a program puts on the stack and which cells it gives values to, read off its tokens
without a derivation; and what is in the code when the parser stops at a name that is not declared.
-/

namespace OnePass

namespace Instruction

/-- Puts the value of an operand on the stack. -/
def isValue : Instruction → Bool
  | load _ | constant _ => true
  | _ => false

/-- Takes part in giving a value to a variable. -/
def isTransfer : Instruction → Bool
  | store _ | read => true
  | _ => false

end Instruction

namespace Grammar

open Parse

/-- The tokens that stand for values: numbers, and names but for those that `:=` and `read` give a
value to. After `read` the next name is such a target. -/
def operands (target : Bool) : List Token → List Token
  | [] => []
  | t :: ts =>
    match t.kind with
    | .number => t :: operands target ts
    | .readKw => operands true ts
    | .identifier =>
      if target ∨ (kinds ts).head? = some .assign then operands false ts
      else t :: operands false ts
    | _ => operands target ts

def operandCode (address : String → Nat) (t : Token) : Instruction :=
  if t.kind = .number then .constant (Text.decimalValue t.lexeme.toList)
  else .load (address t.lexeme)

/-- The instructions that give a value to a variable, if a command of that sort begins with `t` and
ends within `ts`: a `read` with its `)`, an assignment before the next `;` or `end`. -/
def transfer (address : String → Nat) (t : Token) (ts : List Token) : List Instruction :=
  match t.kind, ts with
  | .readKw, _ :: x :: _ :: _ => [.read, .store (address x.lexeme)]
  | .identifier, op :: us =>
    if op.kind = .assign ∧ (.semicolon ∈ kinds us ∨ .endKw ∈ kinds us) then
      [.store (address t.lexeme)]
    else []
  | _, _ => []

/-- The instructions that give values to variables, of the commands that end within the tokens. -/
def transfers (address : String → Nat) : List Token → List Instruction
  | [] => []
  | t :: ts => transfer address t ts ++ transfers address ts

/-! ### Code that covers tokens -/

/-- The code `c` is what the tokens `pre` give, when `us` come after them. -/
structure Covers (address : String → Nat) (pre : List Token) (c : List Instruction)
    (us : List Token) : Prop where
  values : (operands false (pre ++ us)).map (operandCode address) =
    c.filter Instruction.isValue ++ (operands false us).map (operandCode address)
  transfers : transfers address (pre ++ us) =
    c.filter Instruction.isTransfer ++ transfers address us

variable {address : String → Nat} {pre pre' us vs ts : List Token} {c c' : List Instruction}
  {t : Token}

lemma covers_nil : Covers address [] [] us := ⟨rfl, rfl⟩

lemma Covers.append (h : Covers address pre c (pre' ++ us)) (h' : Covers address pre' c' us) :
    Covers address (pre ++ pre') (c ++ c') us := by
  constructor
  · rw [List.append_assoc, h.values, h'.values, List.filter_append, List.append_assoc]
  · rw [List.append_assoc, h.transfers, h'.transfers, List.filter_append, List.append_assoc]

lemma covers_token (h : t.kind ∉ [Kind.identifier, .number, .readKw]) :
    Covers address [t] [] us := by
  simp only [List.mem_cons, List.not_mem_nil, or_false, not_or] at h
  have ho : operands false (t :: us) = operands false us := by
    rw [operands]
    split <;> simp_all
  have ht : transfer address t us = [] := by
    unfold transfer
    split <;> simp_all
  exact ⟨by simp [ho], by simp [transfers, ht]⟩

lemma Covers.token (h : Covers address pre c us) {k : Kind} (x : Terminal k)
    (hk : k ∉ [Kind.identifier, .number, .readKw]) : Covers address (x.1 :: pre) c us :=
  (covers_token (by rwa [x.2])).append h

lemma Covers.emit (h : Covers address pre c us) {i : Instruction} (hv : i.isValue = false)
    (ht : i.isTransfer = false) : Covers address pre (i :: c) us :=
  ⟨by simp [hv, h.values], by simp [ht, h.transfers]⟩

/-! ### Expressions -/

/-- The tokens do not go on with `:=`. -/
def NoAssign (us : List Token) : Prop := (kinds us).head? ≠ some .assign

lemma noAssign_append (h : ∀ t ∈ ts, t.kind ≠ .assign) (hu : NoAssign us) :
    NoAssign (ts ++ us) := by
  cases ts with
  | nil => exact hu
  | cons t ts => simpa [NoAssign] using h t (by simp)

lemma noAssign_of_forall (h : ∀ t ∈ ts, t.kind ≠ .assign) : NoAssign ts := by
  have he : NoAssign [] := by simp [NoAssign]
  have hn := noAssign_append h he
  rwa [List.append_nil] at hn

def ExprTree.kinds : List Kind :=
  [.identifier, .number, .leftParen, .rightParen, .star, .slash, .plus, .minus, .lessEqual]

lemma ExprTree.kind_mem {c : ExprCategory} (D : ExprTree c) :
    ∀ t ∈ D.yield, t.kind ∈ ExprTree.kinds := by
  induction D <;> simp_all [yield, or_imp, ExprTree.kinds]

lemma ExprTree.kind_ne {c : ExprCategory} (D : ExprTree c) {k : Kind} (hk : k ∉ ExprTree.kinds) :
    ∀ t ∈ D.yield, t.kind ≠ k := by
  rintro t ht rfl
  exact hk (D.kind_mem t ht)

lemma ExprTree.noAssign {c : ExprCategory} (D : ExprTree c) (h : NoAssign us) :
    NoAssign (D.yield ++ us) := noAssign_append (D.kind_ne (by decide)) h

lemma covers_name (x : Terminal .identifier) (h : NoAssign us) :
    Covers address [x.1] [.load (address x.1.lexeme)] us := by
  have ho : operands false (x.1 :: us) = x.1 :: operands false us := by
    have hn : ¬ (false = true ∨ (kinds us).head? = some .assign) := by
      simpa [NoAssign] using h
    simp only [operands, x.2, if_neg hn]
  have ht : transfer address x.1 us = [] := by
    unfold transfer
    split <;> simp_all [NoAssign]
  exact ⟨by simp [ho, operandCode, List.filter_cons, Instruction.isValue],
    by simp [transfers, ht, Instruction.isTransfer]⟩

lemma covers_number (v : Terminal .number) :
    Covers address [v.1] [.constant (Text.decimalValue v.1.lexeme.toList)] us := by
  have ht : transfer address v.1 us = [] := by
    unfold transfer
    split <;> simp_all
  exact ⟨by simp [operands, operandCode, List.filter_cons, Instruction.isValue],
    by simp [transfers, ht, Instruction.isTransfer]⟩

lemma ExprTree.covers {c : ExprCategory} (D : ExprTree c) (h : NoAssign us) :
    Covers address D.yield (D.code address) us := by
  induction D generalizing us with
  | name x => exact covers_name x h
  | number v => exact covers_number v
  | parens l e r ih =>
    have hr : Covers address [r.1] [] us := covers_nil.token r (by decide)
    have hn : NoAssign ([r.1] ++ us) := by simp [NoAssign]
    have he := (ih hn).append hr
    rw [List.append_nil] at he
    exact he.token l (by decide)
  | noFactors => exact covers_nil
  | noTerms => exact covers_nil
  | noComparison => exact covers_nil
  | multiply op f fs ihf ihfs =>
    exact ((ihf (fs.noAssign h)).append ((ihfs h).emit rfl rfl)).token op (by decide)
  | divide op f fs ihf ihfs =>
    exact ((ihf (fs.noAssign h)).append ((ihfs h).emit rfl rfl)).token op (by decide)
  | term f fs ihf ihfs => exact (ihf (fs.noAssign h)).append (ihfs h)
  | add op t ts iht ihts =>
    exact ((iht (ts.noAssign h)).append ((ihts h).emit rfl rfl)).token op (by decide)
  | subtract op t ts iht ihts =>
    exact ((iht (ts.noAssign h)).append ((ihts h).emit rfl rfl)).token op (by decide)
  | expression t ts iht ihts => exact (iht (ts.noAssign h)).append (ihts h)
  | lessEqual op e ih =>
    have ho : Covers address [] [.operate .lessOrEqual] us := covers_nil.emit rfl rfl
    have he := ((ih h).append ho).token op (by decide)
    rwa [List.append_nil] at he

lemma ExprTree.filter_isTransfer {c : ExprCategory} (D : ExprTree c) :
    (D.code address).filter Instruction.isTransfer = [] := by
  induction D <;> simp_all [code, Instruction.isTransfer]

/-! ### Commands -/

lemma operands_assign (x : Terminal .identifier) (op : Terminal .assign) :
    operands false (x.1 :: op.1 :: us) = operands false us := by
  simp [operands]

lemma transfers_assign (x : Terminal .identifier) (op : Terminal .assign) :
    transfers address (x.1 :: op.1 :: us) =
      (if .semicolon ∈ kinds us ∨ .endKw ∈ kinds us then [.store (address x.1.lexeme)] else []) ++
        transfers address us := by
  have hx : transfer address x.1 (op.1 :: us) =
      if .semicolon ∈ kinds us ∨ .endKw ∈ kinds us then [.store (address x.1.lexeme)] else [] := by
    simp only [transfer, x.2, op.2, true_and]
  have ho : Covers address [op.1] [] us := covers_nil.token op (by decide)
  rw [transfers, hx]
  exact congrArg _ ho.transfers

abbrev follow : List Kind := CommandCategory.follow .command

lemma Ahead.noAssign (h : Ahead follow us) : NoAssign us := by
  cases us with
  | nil => exact h.elim
  | cons t us =>
    have hk : t.kind ∈ [Kind.semicolon, .endKw] := h
    simp only [List.mem_cons, List.not_mem_nil, or_false] at hk
    rcases hk with hk | hk <;> simp [NoAssign, hk]

lemma CommandTree.ahead (cs : CommandTree .moreCommands) (h : Ahead follow us) :
    Ahead follow (cs.yield ++ us) := by
  cases cs with
  | noCommands => exact h
  | next s c cs => simp [CommandTree.yield, follow, CommandCategory.follow]

lemma covers_assign (x : Terminal .identifier) (op : Terminal .assign) (e : ExprTree .expression)
    (h : Ahead follow us) :
    Covers address (x.1 :: op.1 :: e.yield)
      (e.code address ++ [.store (address x.1.lexeme)]) us := by
  have he : Covers address e.yield (e.code address) us := e.covers h.noAssign
  have hm : .semicolon ∈ kinds (e.yield ++ us) ∨ .endKw ∈ kinds (e.yield ++ us) := by
    cases us with
    | nil => exact h.elim
    | cons t us =>
      have hk : t.kind ∈ [Kind.semicolon, .endKw] := h
      simp only [List.mem_cons, List.not_mem_nil, or_false] at hk
      rcases hk with hk | hk <;> simp [hk]
  constructor
  · rw [List.cons_append, List.cons_append, operands_assign, he.values]
    simp [Instruction.isValue]
  · rw [List.cons_append, List.cons_append, transfers_assign, if_pos hm, he.transfers]
    simp [List.filter_cons, Instruction.isTransfer, e.filter_isTransfer]

lemma covers_target (x : Terminal .identifier) (op : Terminal .assign)
    (h : ∀ t ∈ us, t.kind ≠ .semicolon ∧ t.kind ≠ .endKw) :
    Covers address [x.1, op.1] [] us := by
  have hm : ¬ (.semicolon ∈ kinds us ∨ .endKw ∈ kinds us) := by
    rintro (hm | hm) <;> obtain ⟨t, ht, hk⟩ := List.mem_map.1 hm
    · exact (h t ht).1 hk
    · exact (h t ht).2 hk
  constructor
  · rw [List.cons_append, List.singleton_append, operands_assign]
    rfl
  · rw [List.cons_append, List.singleton_append, transfers_assign, if_neg hm]
    rfl

lemma covers_read (k : Terminal .readKw) (l : Terminal .leftParen) (x : Terminal .identifier)
    (r : Terminal .rightParen) :
    Covers address [k.1, l.1, x.1, r.1] [.read, .store (address x.1.lexeme)] us := by
  constructor
  · simp [operands, Instruction.isValue]
  · simp [transfers, transfer, List.filter_cons, Instruction.isTransfer]

lemma covers_condition (w : Terminal .whileKw) (e : ExprTree .expression)
    (r : ExprTree .comparison) (k : Terminal .doKw) (again done : Label) :
    Covers address (w.1 :: e.yield ++ r.yield ++ [k.1])
      (.anchor again :: e.code address ++ r.code address ++ [.jumpIfFalse done]) us := by
  have hk : NoAssign ([k.1] ++ us) := by simp [NoAssign]
  have he : Covers address (w.1 :: e.yield) (.anchor again :: e.code address)
      (r.yield ++ ([k.1] ++ us)) := ((e.covers (r.noAssign hk)).emit rfl rfl).token w (by decide)
  have hd : Covers address [k.1] [.jumpIfFalse done] us :=
    (covers_nil.emit rfl rfl).token k (by decide)
  exact (he.append (r.covers hk)).append hd

lemma CommandTree.covers {c : CommandCategory} (C : CommandTree c) (n : Nat) (h : Ahead follow us) :
    Covers address C.yield (C.code address n) us := by
  induction C generalizing us n with
  | assign x op e => exact covers_assign x op e h
  | loop w e r k body ih =>
    have hb := (covers_condition w e r k ⟨n + 1⟩ ⟨n + 2⟩).append (ih (n + 2) h)
    have hj : Covers address [] [.jump ⟨n + 1⟩, .anchor ⟨n + 2⟩] us :=
      (covers_nil.emit rfl rfl).emit rfl rfl
    have hl := hb.append hj
    simpa [yield, code] using hl
  | read k l x r => exact covers_read k l x r
  | write k l e r =>
    have hr : Covers address [r.1] [.write] us := (covers_nil.emit rfl rfl).token r (by decide)
    have he : Covers address e.yield (e.code address) ([r.1] ++ us) :=
      e.covers (by simp [NoAssign])
    exact ((he.append hr).token l (by decide)).token k (by decide)
  | compound b cs e ih =>
    have hr : Covers address [e.1] [] us := covers_nil.token e (by decide)
    have ha : Ahead follow ([e.1] ++ us) := by simp [follow, CommandCategory.follow]
    have hc := (ih n ha).append hr
    rw [List.append_nil] at hc
    exact hc.token b (by decide)
  | empty => exact covers_nil
  | noCommands => exact covers_nil
  | next s c cs ihc ihcs =>
    exact ((ihc n (cs.ahead h)).append (ihcs _ h)).token s (by decide)
  | commands c cs ihc ihcs => exact (ihc n (cs.ahead h)).append (ihcs _ h)

/-! ### Walks that stop -/

variable {d : Draft} {s : Stop} {x : Except Stop Draft}

/-- A walk that stops at the name `t`, which is not declared, after the tokens `us`. What it has
written covers these. -/
structure StopsAt (d : Draft) (us : List Token) (t : Token) (s : Stop) : Prop where
  kind : t.kind = .identifier
  fault : s.fault = .undeclared t
  unknown : t.lexeme ∉ d.symbols.names
  known : Known d.symbols.names us
  code : ∃ c : List Instruction, s.draft.code = d.code ++ c.toArray ∧
    Covers (addressIn d.symbols.names) us c []

/-- The computation stops at a name among `ts`. -/
def Stops (x : Except Stop Draft) (d : Draft) (ts : List Token) : Prop :=
  ∃ us t vs s, x = .error s ∧ ts = us ++ t :: vs ∧ StopsAt d us t s

lemma stops_addressOf {f : Nat → Except Stop Draft} (hk : t.kind = .identifier)
    (ht : t.lexeme ∉ d.symbols.names) : Stops (d.addressOf t >>= f) d (t :: ts) := by
  rw [Draft.addressOf_of_not_mem ht]
  exact ⟨[], t, ts, _, rfl, rfl, hk, rfl, ht, known_nil _, [], by simp, covers_nil⟩

lemma Stops.bind (h : Stops x d ts) (f : Draft → Except Stop Draft) : Stops (x >>= f) d ts := by
  obtain ⟨us, t, vs, s, rfl, ht, hs⟩ := h
  exact ⟨us, t, vs, s, rfl, ht, hs⟩

lemma Stops.append (h : Stops x d ts) (more : List Token) : Stops x d (ts ++ more) := by
  obtain ⟨us, t, vs, s, hx, rfl, hs⟩ := h
  exact ⟨us, t, vs ++ more, s, hx, by simp, hs⟩

lemma Stops.after {n : Nat} (h : Stops x (grow d c n) ts) (hk : Known d.symbols.names pre)
    (hc : ∀ us t vs, ts = us ++ t :: vs → t.kind = .identifier →
      Covers (addressIn d.symbols.names) pre c us) : Stops x d (pre ++ ts) := by
  obtain ⟨us, t, vs, s, hx, rfl, hs⟩ := h
  obtain ⟨c', hc', hcov⟩ := hs.code
  refine ⟨pre ++ us, t, vs, s, hx, by simp, hs.kind, hs.fault, hs.unknown,
    known_append.2 ⟨hk, hs.known⟩, c ++ c', ?_, ?_⟩
  · simp [hc', grow]
  · refine Covers.append ?_ hcov
    rw [List.append_nil]
    exact hc us t vs rfl hs.kind

lemma Stops.token (h : Stops x d ts) {k : Kind} (y : Terminal k)
    (hk : k ∉ [Kind.identifier, .number, .readKw]) : Stops x d (y.1 :: ts) := by
  have hn : Known d.symbols.names [y.1] := by
    have hy : k ≠ .identifier := fun hy => hk (by simp [hy])
    simp [hy]
  have hg : Stops x (grow d [] 0) ts := by rwa [grow_nil]
  exact hg.after hn fun us _ _ _ _ => covers_nil.token y hk

/-- The walk over `D` stops if a name in `D` is not declared. -/
def ExprTree.Stopping {c : ExprCategory} (D : ExprTree c) : Prop :=
  ∀ d, InRange D.yield → ¬ Known d.symbols.names D.yield → Stops (D.walk d) d D.yield

lemma stops_pair {c m : ExprCategory} {D : ExprTree c} {E : ExprTree m} {mid : List Instruction}
    (hmid : ∀ us, Covers (addressIn d.symbols.names) [] mid us) (hD : D.Stopping)
    (hE : E.Stopping) (hv : InRange (D.yield ++ E.yield))
    (hn : ¬ Known d.symbols.names (D.yield ++ E.yield)) :
    Stops (D.walk d >>= fun d => E.walk (grow d mid 0)) d (D.yield ++ E.yield) := by
  rw [inRange_append] at hv
  rw [known_append] at hn
  by_cases hk : Known d.symbols.names D.yield
  · rw [D.walk_of_known d hk hv.1, ok_bind, grow_grow]
    have hs := hE (grow d (D.code (addressIn d.symbols.names) ++ mid) (0 + 0)) hv.2
      fun h => hn ⟨hk, h⟩
    refine hs.after hk fun us t vs he _ => ?_
    have hu : NoAssign us := noAssign_of_forall fun y hy =>
      E.kind_ne (by decide) y (by rw [he]; simp [hy])
    have hc : Covers (addressIn d.symbols.names) D.yield
        (D.code (addressIn d.symbols.names)) ([] ++ us) := D.covers hu
    have hcm := hc.append (hmid us)
    rwa [List.append_nil] at hcm
  · exact ((hD d hv.1 hk).bind _).append E.yield

lemma stops_operator {c m : ExprCategory} {k : Kind} (op : Terminal k) {D : ExprTree c}
    {E : ExprTree m} (o : Operator) (hD : D.Stopping) (hE : E.Stopping)
    (hk : k ∉ [Kind.identifier, .number, .readKw]) (hv : InRange (op.1 :: D.yield ++ E.yield))
    (hn : ¬ Known d.symbols.names (op.1 :: D.yield ++ E.yield)) :
    Stops (D.walk d >>= fun d => E.walk (d.emit (.operate o))) d
      (op.1 :: D.yield ++ E.yield) := by
  have hy : k ≠ .identifier := fun hy => hk (by simp [hy])
  simp only [List.cons_append, known_cons, inRange_cons, op.2, hy, false_imp_iff,
    true_and] at hv hn
  simp only [emit_eq_grow]
  exact (stops_pair (fun us => covers_nil.emit rfl rfl) hD hE hv.2 hn).token op hk

/-- **An expression stops at its first name that is not declared.** -/
theorem ExprTree.stopping {c : ExprCategory} (D : ExprTree c) : D.Stopping := by
  induction D with
  | name x =>
    intro d _ hn
    exact stops_addressOf x.2 (by simpa [yield] using hn)
  | number v =>
    intro d _ hn
    simp [yield] at hn
  | parens l e r ih =>
    intro d hv hn
    simp only [yield, List.cons_append, inRange_cons, inRange_append] at hv
    have hk : ¬ Known d.symbols.names e.yield := by simpa [yield] using hn
    exact ((ih d hv.2.1 hk).token l (by decide)).append [r.1]
  | noFactors => exact fun d _ hn => absurd (known_nil _) hn
  | noTerms => exact fun d _ hn => absurd (known_nil _) hn
  | noComparison => exact fun d _ hn => absurd (known_nil _) hn
  | multiply op f fs ihf ihfs =>
    exact fun d hv hn => stops_operator op .multiply ihf ihfs (by decide) hv hn
  | divide op f fs ihf ihfs =>
    exact fun d hv hn => stops_operator op .divide ihf ihfs (by decide) hv hn
  | term f fs ihf ihfs =>
    intro d hv hn
    have hm : ∀ us, Covers (addressIn d.symbols.names) [] [] us := fun us => covers_nil
    have hs := stops_pair hm ihf ihfs hv hn
    simp only [grow_nil] at hs
    exact hs
  | add op t ts iht ihts =>
    exact fun d hv hn => stops_operator op .add iht ihts (by decide) hv hn
  | subtract op t ts iht ihts =>
    exact fun d hv hn => stops_operator op .subtract iht ihts (by decide) hv hn
  | expression t ts iht ihts =>
    intro d hv hn
    have hm : ∀ us, Covers (addressIn d.symbols.names) [] [] us := fun us => covers_nil
    have hs := stops_pair hm iht ihts hv hn
    simp only [grow_nil] at hs
    exact hs
  | lessEqual op e ih =>
    intro d hv hn
    rw [yield, inRange_cons] at hv
    have hk : ¬ Known d.symbols.names e.yield := by simpa [yield] using hn
    exact ((ih d hv.2 hk).bind _).token op (by decide)

def CommandTree.Stopping {c : CommandCategory} (C : CommandTree c) : Prop :=
  ∀ d, InRange C.yield → ¬ Known d.symbols.names C.yield → Stops (C.walk d) d C.yield

lemma stopping_assign (x : Terminal .identifier) (op : Terminal .assign)
    (e : ExprTree .expression) : (CommandTree.assign x op e).Stopping := by
  intro d hv hn
  simp only [CommandTree.yield, inRange_cons, known_cons] at hv hn
  by_cases hx : x.1.lexeme ∈ d.symbols.names
  · have hk : ¬ Known d.symbols.names e.yield := fun hk => hn ⟨fun _ => hx, by simp, hk⟩
    have hkx : Known d.symbols.names [x.1, op.1] := by simp [hx]
    have hs : Stops (e.walk d) (grow d [] 0) e.yield := by
      rw [grow_nil]
      exact e.stopping d hv.2.2 hk
    rw [CommandTree.walk, Draft.addressOf_of_mem hx, ok_bind]
    -- The store comes after the expression, so the target is still open where the walk stops.
    refine (hs.bind _).after hkx fun us t vs he _ => covers_target x op fun y hy => ?_
    have hm : y ∈ e.yield := by rw [he]; simp [hy]
    exact ⟨e.kind_ne (by decide) y hm, e.kind_ne (by decide) y hm⟩
  · exact stops_addressOf x.2 hx

lemma stopping_read (k : Terminal .readKw) (l : Terminal .leftParen) (x : Terminal .identifier)
    (r : Terminal .rightParen) : (CommandTree.read k l x r).Stopping := by
  intro d _ hn
  have hx : x.1.lexeme ∉ d.symbols.names := by simpa [CommandTree.yield] using hn
  have hc : Covers (addressIn d.symbols.names) [k.1, l.1] [] [] :=
    ⟨by simp [operands], by simp [transfers, transfer]⟩
  rw [CommandTree.walk, Draft.addressOf_of_not_mem hx]
  exact ⟨[k.1, l.1], x.1, [r.1], _, rfl, rfl, x.2, rfl, hx, by simp, [], by simp, hc⟩

lemma stopping_loop (w : Terminal .whileKw) (e : ExprTree .expression) (r : ExprTree .comparison)
    (k : Terminal .doKw) {body : CommandTree .command} (hb : body.Stopping) :
    (CommandTree.loop w e r k body).Stopping := by
  intro d hv hn
  simp only [CommandTree.yield, List.cons_append, inRange_cons, inRange_append] at hv
  obtain ⟨-, ⟨ve, vr⟩, -, vb⟩ := hv
  have hw : (CommandTree.loop w e r k body).walk d =
      (e.walk (grow d [.anchor ⟨d.labels + 1⟩] 1) >>= fun d₁ => r.walk (grow d₁ [] 0)) >>= fun d₁ =>
        body.walk (grow d₁ [.jumpIfFalse ⟨d.labels + 2⟩] 0) >>= fun d₂ =>
          .ok ((d₂.emit (.jump ⟨d.labels + 1⟩)).emit (.anchor ⟨d.labels + 2⟩)) := by
    simp only [CommandTree.walk, newLabel_newLabel, newLabel_fst, labels_newLabel]
    simp only [emit_eq_grow, grow_nil, bind_assoc, pure_eq_ok]
  have hd : Known d.symbols.names (e.yield ++ r.yield) → ¬ Known d.symbols.names body.yield := by
    intro hc hk
    obtain ⟨he, hr⟩ := known_append.1 hc
    exact hn (by simp [CommandTree.yield, he, hr, hk])
  rw [hw]
  by_cases hc : Known d.symbols.names (e.yield ++ r.yield)
  -- The condition is known: the walk stops in the body, after the conditional jump.
  · obtain ⟨he, hr⟩ := known_append.1 hc
    have hk : Known d.symbols.names (w.1 :: e.yield ++ r.yield ++ [k.1]) := by simp [he, hr]
    rw [e.walk_of_known (grow d [.anchor ⟨d.labels + 1⟩] 1) he ve, ok_bind, grow_nil,
      r.walk_of_known (grow (grow d _ 1) _ 0) hr vr, ok_bind, grow_grow, grow_grow, grow_grow]
    have hs := Stops.after ((hb (grow d _ 1) vb (hd hc)).bind fun d₂ =>
      .ok ((d₂.emit (.jump ⟨d.labels + 1⟩)).emit (.anchor ⟨d.labels + 2⟩))) hk
      fun us _ _ _ _ => covers_condition w e r k ⟨d.labels + 1⟩ ⟨d.labels + 2⟩
    simpa [CommandTree.yield] using hs
  -- The walk stops in the condition, and only the anchor stands before it.
  · have hm : ∀ us, Covers (addressIn d.symbols.names) [] [] us := fun us => covers_nil
    have hkw : Known d.symbols.names [w.1] := by simp
    have hs := stops_pair (d := grow d [.anchor ⟨d.labels + 1⟩] 1) hm e.stopping r.stopping
      (inRange_append.2 ⟨ve, vr⟩) hc
    have ha := Stops.after (hs.bind fun d₁ =>
        body.walk (grow d₁ [.jumpIfFalse ⟨d.labels + 2⟩] 0) >>= fun d₂ =>
          .ok ((d₂.emit (.jump ⟨d.labels + 1⟩)).emit (.anchor ⟨d.labels + 2⟩))) hkw
      fun us _ _ _ _ => (covers_nil.emit rfl rfl).token w (by decide)
    exact ha.append (k.1 :: body.yield)

lemma ahead_of_stop {cs : CommandTree .moreCommands} (h : cs.yield = us ++ t :: vs)
    (ht : t.kind = .identifier) : Ahead follow us := by
  cases cs with
  | noCommands => simp [CommandTree.yield] at h
  | next s c cs =>
    cases us with
    | nil =>
      obtain ⟨rfl, -⟩ := List.cons.inj h
      simp at ht
    | cons u us =>
      obtain ⟨rfl, -⟩ := List.cons.inj h
      simp [follow, CommandCategory.follow]

lemma stops_sequence {c : CommandTree .command} {cs : CommandTree .moreCommands}
    (hc : c.Stopping) (hcs : cs.Stopping) (hv : InRange (c.yield ++ cs.yield))
    (hn : ¬ Known d.symbols.names (c.yield ++ cs.yield)) :
    Stops (c.walk d >>= fun d => cs.walk d) d (c.yield ++ cs.yield) := by
  rw [inRange_append] at hv
  rw [known_append] at hn
  by_cases hk : Known d.symbols.names c.yield
  · rw [c.walk_of_known d hk hv.1, ok_bind]
    have hs := hcs (grow d (c.code (addressIn d.symbols.names) d.labels) c.loops) hv.2
      fun h => hn ⟨hk, h⟩
    exact hs.after hk fun us t vs he ht => c.covers d.labels (ahead_of_stop he ht)
  · exact ((hc d hv.1 hk).bind _).append cs.yield

/-- **Commands stop at their first name that is not declared.** -/
theorem CommandTree.stopping {c : CommandCategory} (C : CommandTree c) : C.Stopping := by
  induction C with
  | assign x op e => exact stopping_assign x op e
  | loop w e r k body ih => exact stopping_loop w e r k ih
  | read k l x r => exact stopping_read k l x r
  | write k l e r =>
    intro d hv hn
    simp only [yield, List.cons_append, inRange_cons, inRange_append] at hv
    have hk : ¬ Known d.symbols.names e.yield := by simpa [yield] using hn
    exact ((((e.stopping d hv.2.2.1 hk).bind _).append [r.1]).token l (by decide)).token k
      (by decide)
  | compound b cs e ih =>
    intro d hv hn
    simp only [yield, List.cons_append, inRange_cons, inRange_append] at hv
    have hk : ¬ Known d.symbols.names cs.yield := by simpa [yield] using hn
    exact ((ih d hv.2.1 hk).append [e.1]).token b (by decide)
  | empty => exact fun d _ hn => absurd (known_nil _) hn
  | noCommands => exact fun d _ hn => absurd (known_nil _) hn
  | next s c cs ihc ihcs =>
    intro d hv hn
    simp only [yield, List.cons_append, inRange_cons] at hv
    have hk : ¬ Known d.symbols.names (c.yield ++ cs.yield) := by simpa [yield] using hn
    exact (stops_sequence ihc ihcs hv.2 hk).token s (by decide)
  | commands c cs ihc ihcs => exact fun d hv hn => stops_sequence ihc ihcs hv hn

/-- **A program stops** at the first name in its body that is not declared, and what has been
written covers the body up to it. -/
theorem Program.stops {P : Program} (hd : Fresh d) (hn : P.variableNames.Nodup)
    (hr : InRange P.body.yield) (hk : ¬ Known P.variableNames P.body.yield) :
    ∃ us t vs s, P.walk d = .error s ∧ P.body.yield = us ++ t :: vs ∧ s.fault = .undeclared t ∧
      Known P.variableNames us ∧ ∃ c : List Instruction, s.draft.code = d.code ++ c.toArray ∧
        Covers (addressIn P.variableNames) (P.begin.1 :: us) c [] := by
  obtain ⟨d₁, h₁, hs, -, hc⟩ := walk_declarations (d := d.emit .start) hd hn
  have hs' : d₁.symbols.names = P.variableNames := hs
  -- The declarations are walked without fault, so the walk stops in the body.
  obtain ⟨us, t, vs, s, hb, hy, hst⟩ := P.body.stopping d₁ hr (hs' ▸ hk)
  obtain ⟨c, hcode, hcov⟩ := hst.code
  rw [hs'] at hcov
  have hw : P.walk d = .error s := by
    simp only [Program.walk, pure_eq_ok]
    rw [h₁, ok_bind, hb, error_bind]
  have hcov' : Covers (addressIn P.variableNames) (P.begin.1 :: us) c [] :=
    hcov.token P.begin (by decide)
  refine ⟨us, t, vs, s, hw, hy, hst.fault, hs' ▸ hst.known, .start ::
    (P.declarations.elim [] fun ds => [Instruction.allocate ds.names.length]) ++ c, ?_, ?_⟩
  · rw [hcode, hc]
    simp [Draft.emit]
  · cases P.declarations with
    | none => exact hcov'.emit rfl rfl
    | some ds => exact (hcov'.emit rfl rfl).emit rfl rfl

end Grammar

end OnePass
