import OnePass.Proofs.Names
import OnePass.Proofs.TreeWalk

/-!
The code of a derivation, as a function of the tree alone, and what a walk over the tree adds to
a draft in terms of it.

Labels are numbered in the order of the loops: the loop that begins when `n` labels are in use
takes the labels `n + 1` and `n + 2`, and its body begins after them.
-/

namespace OnePass.Grammar

/-! ### The code of a derivation -/

/-- The address of a variable: its place among the declared names. -/
def addressIn (names : List String) (x : String) : Nat := names.idxOf x

def ExprTree.code (address : String → Nat) {c : ExprCategory} : ExprTree c → List Instruction
  | .name x => [.load (address x.1.lexeme)]
  | .number v => [.constant (Text.decimalValue v.1.lexeme.toList)]
  | .parens _ e _ => e.code address
  | .noFactors | .noTerms | .noComparison => []
  | .multiply _ f fs => f.code address ++ .operate .multiply :: fs.code address
  | .divide _ f fs => f.code address ++ .operate .divide :: fs.code address
  | .term f fs => f.code address ++ fs.code address
  | .add _ t ts => t.code address ++ .operate .add :: ts.code address
  | .subtract _ t ts => t.code address ++ .operate .subtract :: ts.code address
  | .expression t ts => t.code address ++ ts.code address
  | .lessEqual _ e => e.code address ++ [.operate .lessOrEqual]

def CommandTree.loops {c : CommandCategory} : CommandTree c → Nat
  | .loop _ _ _ _ body => body.loops + 1
  | .compound _ cs _ => cs.loops
  | .next _ c cs => c.loops + cs.loops
  | .commands c cs => c.loops + cs.loops
  | .assign .. | .read .. | .write .. | .empty | .noCommands => 0

/-- The code of a command, given the number of labels in use before it. -/
def CommandTree.code (address : String → Nat) {c : CommandCategory} :
    CommandTree c → Nat → List Instruction
  | .assign x _ e, _ => e.code address ++ [.store (address x.1.lexeme)]
  | .loop _ e r _ body, n =>
    .anchor ⟨n + 1⟩ :: e.code address ++ r.code address ++ .jumpIfFalse ⟨n + 2⟩ ::
      body.code address (n + 2) ++ [.jump ⟨n + 1⟩, .anchor ⟨n + 2⟩]
  | .read _ _ x _, _ => [.read, .store (address x.1.lexeme)]
  | .write _ _ e _, _ => e.code address ++ [.write]
  | .compound _ cs _, n => cs.code address n
  | .empty, _ | .noCommands, _ => []
  | .next _ c cs, n => c.code address n ++ cs.code address (n + 2 * c.loops)
  | .commands c cs, n => c.code address n ++ cs.code address (n + 2 * c.loops)

namespace Program

/-- The names of the variables, in the order of their declaration. -/
def variableNames (P : Program) : List String := P.names.map Token.lexeme

/-- The instruction that reserves the cells of the variables, if any are declared. -/
def allocation (P : Program) : List Instruction :=
  P.declarations.elim [] fun ds => [.allocate ds.names.length]

def code (P : Program) : List Instruction :=
  .start :: P.allocation ++ P.body.code (addressIn P.variableNames) 0 ++ [.halt]

end Program

/-! ### Growing drafts -/

/-- The draft with more code, in which some loops begin. -/
def grow (d : Draft) (code : List Instruction) (loops : Nat) : Draft where
  symbols := d.symbols
  labels := d.labels + 2 * loops
  code := d.code ++ code.toArray
  events := d.events ++
    ((List.range' (d.labels + 1) (2 * loops)).map fun n => Event.labelled ⟨n⟩).toArray

@[simp] lemma symbols_grow (d : Draft) (code : List Instruction) (loops : Nat) :
    (grow d code loops).symbols = d.symbols := rfl

@[simp] lemma labels_grow (d : Draft) (code : List Instruction) (loops : Nat) :
    (grow d code loops).labels = d.labels + 2 * loops := rfl

@[simp] lemma grow_nil (d : Draft) : grow d [] 0 = d := by simp [grow]

lemma emit_eq_grow (d : Draft) (i : Instruction) : d.emit i = grow d [i] 0 := by
  simp [grow, Draft.emit]

@[simp] lemma grow_grow (d : Draft) (code more : List Instruction) (m n : Nat) :
    grow (grow d code m) more n = grow d (code ++ more) (m + n) := by
  have hr : List.range' (d.labels + 1) (2 * (m + n)) =
      List.range' (d.labels + 1) (2 * m) ++ List.range' (d.labels + 2 * m + 1) (2 * n) := by
    rw [Nat.mul_add, ← List.range'_append_1]
    congr 2
    omega
  simp only [grow, hr]
  simp [Nat.mul_add, Nat.add_assoc]

@[simp] lemma newLabel_fst (d : Draft) : d.newLabel.1 = ⟨d.labels + 1⟩ := rfl

@[simp] lemma labels_newLabel (d : Draft) : d.newLabel.2.labels = d.labels + 1 := rfl

lemma newLabel_newLabel (d : Draft) (i : Instruction) :
    d.newLabel.2.newLabel.2.emit i = grow d [i] 1 := by
  simp [grow, Draft.newLabel, Draft.emit, Draft.record, List.range'_succ, ← Array.toList_inj]

/-! ### What a walk adds to a draft -/

/-- The names used in `ts` are among `names`. -/
def Known (names : List String) (ts : List Token) : Prop :=
  ∀ t ∈ ts, t.kind = .identifier → t.lexeme ∈ names

/-- The literals in `ts` are in range. -/
def InRange (ts : List Token) : Prop :=
  ∀ t ∈ ts, t.kind = .number → (Text.literalValue? t.lexeme).isSome

@[simp] lemma known_nil (names : List String) : Known names [] := by simp [Known]

@[simp] lemma known_cons {names : List String} {t : Token} {ts : List Token} :
    Known names (t :: ts) ↔ (t.kind = .identifier → t.lexeme ∈ names) ∧ Known names ts := by
  simp [Known]

@[simp] lemma known_append {names : List String} {ts us : List Token} :
    Known names (ts ++ us) ↔ Known names ts ∧ Known names us := by
  simp [Known, or_imp, forall_and]

@[simp] lemma inRange_cons {t : Token} {ts : List Token} :
    InRange (t :: ts) ↔
      (t.kind = .number → (Text.literalValue? t.lexeme).isSome) ∧ InRange ts := by
  simp [InRange]

@[simp] lemma inRange_append {ts us : List Token} :
    InRange (ts ++ us) ↔ InRange ts ∧ InRange us := by
  simp [InRange, or_imp, forall_and]

lemma InRange.append_eof {ts : List Token} (h : InRange ts) (e : Terminal .eof) :
    InRange (ts ++ [e.1]) := by
  refine inRange_append.2 ⟨h, ?_⟩
  simp [InRange]

lemma isSome_literalValue? {s : String} :
    (Text.literalValue? s).isSome ↔ Text.decimalValue s.toList ≤ Text.maxLiteral := by
  by_cases h : Text.decimalValue s.toList ≤ Text.maxLiteral <;> simp [Text.literalValue?, h]

lemma valueOf_of_isSome {d : Draft} {t : Token} (h : (Text.literalValue? t.lexeme).isSome) :
    d.valueOf t = .ok (Text.decimalValue t.lexeme.toList) := by
  rw [isSome_literalValue?] at h
  simp [Draft.valueOf, Text.literalValue?, h]

lemma ExprTree.walk_of_known {c : ExprCategory} (D : ExprTree c) (d : Draft)
    (hx : Known d.symbols.names D.yield) (hv : InRange D.yield) :
    D.walk d = .ok (grow d (D.code (addressIn d.symbols.names)) 0) := by
  induction D generalizing d with
  | name x =>
    have ha := Draft.addressOf_of_mem (hx x.1 (by simp [yield]) x.2)
    simp [walk, code, ha, emit_eq_grow, addressIn]
  | number v =>
    have ha := valueOf_of_isSome (d := d) (hv v.1 (by simp [yield]) v.2)
    simp [walk, code, ha, emit_eq_grow]
  | parens l e r ih =>
    simp only [yield, List.cons_append, known_cons, known_append, inRange_cons,
      inRange_append] at hx hv
    simp [walk, code, ih d hx.2.1 hv.2.1]
  | noFactors => simp [walk, code]
  | noTerms => simp [walk, code]
  | noComparison => simp [walk, code]
  | multiply op f fs ihf ihfs =>
    simp only [yield, List.cons_append, known_cons, known_append, inRange_cons,
      inRange_append] at hx hv
    rw [walk, ihf d hx.2.1 hv.2.1, ok_bind, emit_eq_grow,
      ihfs _ (by simpa using hx.2.2) hv.2.2]
    simp [code]
  | divide op f fs ihf ihfs =>
    simp only [yield, List.cons_append, known_cons, known_append, inRange_cons,
      inRange_append] at hx hv
    rw [walk, ihf d hx.2.1 hv.2.1, ok_bind, emit_eq_grow,
      ihfs _ (by simpa using hx.2.2) hv.2.2]
    simp [code]
  | term f fs ihf ihfs =>
    simp only [yield, known_append, inRange_append] at hx hv
    rw [walk, ihf d hx.1 hv.1, ok_bind, ihfs _ (by simpa using hx.2) hv.2]
    simp [code]
  | add op t ts iht ihts =>
    simp only [yield, List.cons_append, known_cons, known_append, inRange_cons,
      inRange_append] at hx hv
    rw [walk, iht d hx.2.1 hv.2.1, ok_bind, emit_eq_grow,
      ihts _ (by simpa using hx.2.2) hv.2.2]
    simp [code]
  | subtract op t ts iht ihts =>
    simp only [yield, List.cons_append, known_cons, known_append, inRange_cons,
      inRange_append] at hx hv
    rw [walk, iht d hx.2.1 hv.2.1, ok_bind, emit_eq_grow,
      ihts _ (by simpa using hx.2.2) hv.2.2]
    simp [code]
  | expression t ts iht ihts =>
    simp only [yield, known_append, inRange_append] at hx hv
    rw [walk, iht d hx.1 hv.1, ok_bind, ihts _ (by simpa using hx.2) hv.2]
    simp [code]
  | lessEqual op e ih =>
    simp only [yield, known_cons, inRange_cons] at hx hv
    simp [walk, code, ih, hx, hv, emit_eq_grow]

lemma CommandTree.walk_of_known {c : CommandCategory} (C : CommandTree c) (d : Draft)
    (hx : Known d.symbols.names C.yield) (hv : InRange C.yield) :
    C.walk d = .ok (grow d (C.code (addressIn d.symbols.names) d.labels) C.loops) := by
  induction C generalizing d with
  | assign x op e =>
    simp only [yield, known_cons, inRange_cons] at hx hv
    rw [walk, Draft.addressOf_of_mem (hx.1 x.2), ok_bind, e.walk_of_known d hx.2.2 hv.2.2]
    simp [code, loops, emit_eq_grow, addressIn]
  | loop w e r k body ih =>
    simp only [yield, List.cons_append, known_cons, known_append, inRange_cons,
      inRange_append] at hx hv
    obtain ⟨-, ⟨he, hr⟩, -, hb⟩ := hx
    obtain ⟨-, ⟨ve, vr⟩, -, vb⟩ := hv
    simp only [walk, newLabel_newLabel]
    rw [e.walk_of_known _ (by simpa using he) ve, ok_bind,
      r.walk_of_known _ (by simpa using hr) vr, ok_bind, emit_eq_grow,
      ih _ (by simpa using hb) vb, ok_bind]
    simp [code, loops, emit_eq_grow, Nat.add_comm 1]
  | read k l x r =>
    simp only [yield, known_cons] at hx
    rw [walk, Draft.addressOf_of_mem (hx.2.2.1 x.2)]
    simp [code, loops, emit_eq_grow, addressIn]
  | write k l e r =>
    simp only [yield, List.cons_append, known_cons, known_append, inRange_cons,
      inRange_append] at hx hv
    rw [walk, e.walk_of_known d hx.2.2.1 hv.2.2.1]
    simp [code, loops, emit_eq_grow]
  | compound b cs e ih =>
    simp only [yield, List.cons_append, known_cons, known_append, inRange_cons,
      inRange_append] at hx hv
    rw [walk, ih d hx.2.1 hv.2.1]
    simp [code, loops]
  | empty => simp [walk, code, loops]
  | noCommands => simp [walk, code, loops]
  | next s c cs ihc ihcs =>
    simp only [yield, List.cons_append, known_cons, known_append, inRange_cons,
      inRange_append] at hx hv
    rw [walk, ihc d hx.2.1 hv.2.1, ok_bind, ihcs _ (by simpa using hx.2.2) hv.2.2]
    simp [code, loops]
  | commands c cs ihc ihcs =>
    simp only [yield, known_append, inRange_append] at hx hv
    rw [walk, ihc d hx.1 hv.1, ok_bind, ihcs _ (by simpa using hx.2) hv.2]
    simp [code, loops]

end OnePass.Grammar
