import OnePass.Proofs.LoopLabels
import OnePass.Proofs.Operands

/-!
An inventory of code: which tokens of a program its instructions come from.

Operands, targets, `read` and `write` keep their order; operators move behind their right operand,
so of them only the numbers are compared. No other token but `while` gives instructions, and nothing
else is in the code but its frame: the start, the reservation of the variables and the halt.
-/

namespace OnePass

namespace Instruction

/-- Gives a value to a variable. -/
def isStore : Instruction → Bool
  | store _ => true
  | _ => false

/-- Exchanges a value with the outside. -/
def isExchange : Instruction → Bool
  | read | write => true
  | _ => false

/-- Belongs to the program as a whole. -/
def isFrame : Instruction → Bool
  | start | allocate _ | halt => true
  | _ => false

/-- The instruction for `read` and that for `write`. -/
def exchange? : Kind → Option Instruction
  | .readKw => some .read
  | .writeKw => some .write
  | _ => none

end Instruction

/-- The token that an operator is written with. -/
def Operator.kind : Operator → Kind
  | add => .plus
  | subtract => .minus
  | multiply => .star
  | divide => .slash
  | lessOrEqual => .lessEqual

namespace Grammar

/-- The names that `:=` and `read` give a value to. After `read` the next name is such a target. -/
def targets (target : Bool) : List Token → List Token
  | [] => []
  | t :: ts =>
    match t.kind with
    | .readKw => targets true ts
    | .identifier =>
      if target ∨ (kinds ts).head? = some .assign then t :: targets false ts
      else targets false ts
    | _ => targets target ts

/-- The kinds of the tokens that become one instruction each. -/
def codeKinds : List Kind :=
  [.identifier, .number, .plus, .minus, .star, .slash, .lessEqual, .readKw, .writeKw]

/-- The instructions for `read` and `write` among the tokens. -/
def exchanges (ts : List Token) : List Instruction :=
  ts.filterMap fun t => Instruction.exchange? t.kind

/-- The number of tokens of some kinds. -/
def occurrences (ks : List Kind) (ts : List Token) : Nat := ts.countP fun t => t.kind ∈ ks

/-- The code holds what the tokens ask for, and nothing else. -/
structure Inventory (ts : List Token) (code : List Instruction) : Prop where
  /-- Operands, in their order. -/
  values : code.filter Instruction.isValue =
    (operands false (fromBegin ts)).map (operandCode (addressIn (declaredNames ts)))
  /-- Targets, in their order. -/
  stores : code.filter Instruction.isStore =
    (targets false (fromBegin ts)).map fun t => .store (addressIn (declaredNames ts) t.lexeme)
  /-- `read` and `write`, in their order. -/
  exchanges : code.filter Instruction.isExchange = exchanges (fromBegin ts)
  operators : ∀ op : Operator, code.count (.operate op) = occurrences [op.kind] (fromBegin ts)
  start_iff : ∀ i, code[i]? = some .start ↔ i = 0
  halt_iff : ∀ i, code[i]? = some .halt ↔ i + 1 = code.length
  allocate_iff : ∀ i n, code[i]? = some (.allocate n) ↔
    i = 1 ∧ .varKw ∈ kinds ts ∧ n = (declaredNames ts).length
  length_eq : code.length = 2 + (if .varKw ∈ kinds ts then 1 else 0) +
    occurrences codeKinds (fromBegin ts) + 4 * whiles (fromBegin ts)

variable {address : String → Nat} {us : List Token} {t : Token}

lemma ExprTree.filter_code {c : ExprCategory} (D : ExprTree c) {p : Instruction → Bool}
    (hl : ∀ a, p (.load a) = false) (hc : ∀ z, p (.constant z) = false)
    (ho : ∀ op, p (.operate op) = false) : (D.code address).filter p = [] := by
  induction D <;> simp_all [code]

/-! ### Targets -/

lemma targets_cons (h : t.kind ∉ [Kind.identifier, .readKw]) (b : Bool) :
    targets b (t :: us) = targets b us := by
  simp only [List.mem_cons, List.not_mem_nil, or_false, not_or] at h
  rw [targets]
  split <;> simp_all

lemma targets_append {ts : List Token} (ht : ∀ t ∈ ts, t.kind ∈ ExprTree.kinds)
    (h : NoAssign us) : targets false (ts ++ us) = targets false us := by
  induction ts with
  | nil => rfl
  | cons t ts ih =>
    obtain ⟨hk, hts⟩ := List.forall_mem_cons.1 ht
    have ha : ∀ x ∈ ts, x.kind ≠ .assign := by
      rintro x hx hk
      exact absurd (hk ▸ hts x hx) (by decide)
    have hn : ¬ (false = true ∨ (kinds (ts ++ us)).head? = some .assign) := by
      simpa [NoAssign] using noAssign_append ha h
    rw [← ih hts, List.cons_append]
    by_cases hi : t.kind = .identifier
    · simp only [targets, hi, if_neg hn]
    · refine targets_cons ?_ false
      simp only [List.mem_cons, List.not_mem_nil, or_false, not_or]
      exact ⟨hi, fun hr => absurd (hr ▸ hk) (by decide)⟩

def storesOf (address : String → Nat) (ts : List Token) : List Instruction :=
  (targets false ts).map fun t => .store (address t.lexeme)

lemma storesOf_terminal {k : Kind} (x : Terminal k) (hk : k ∉ [Kind.identifier, .readKw]) :
    storesOf address (x.1 :: us) = storesOf address us := by
  rw [storesOf, targets_cons (by rwa [x.2]), storesOf]

lemma ExprTree.storesOf_yield {c : ExprCategory} (D : ExprTree c) (h : NoAssign us) :
    storesOf address (D.yield ++ us) = storesOf address us := by
  rw [storesOf, targets_append D.kind_mem h, storesOf]

lemma ExprTree.filter_isStore {c : ExprCategory} (D : ExprTree c) :
    (D.code address).filter Instruction.isStore = [] :=
  D.filter_code (fun _ => rfl) (fun _ => rfl) fun _ => rfl

/-- **Each target is stored to**, in the order of the text. -/
lemma CommandTree.storesOf_yield {c : CommandCategory} (C : CommandTree c) (n : Nat)
    (h : Ahead follow us) :
    storesOf address (C.yield ++ us) =
      (C.code address n).filter Instruction.isStore ++ storesOf address us := by
  induction C generalizing us n with
  | assign x op e =>
    have hx : storesOf address (x.1 :: op.1 :: (e.yield ++ us)) =
        .store (address x.1.lexeme) :: storesOf address (op.1 :: (e.yield ++ us)) := by
      simp [storesOf, targets]
    have hc : ((assign x op e).code address n).filter Instruction.isStore =
        [.store (address x.1.lexeme)] := by
      rw [code, List.filter_append, e.filter_isStore]
      rfl
    rw [yield, hc, List.cons_append, List.cons_append, hx, storesOf_terminal op (by decide),
      e.storesOf_yield h.noAssign]
    rfl
  | loop w e r k body ih =>
    have hk : NoAssign (k.1 :: (body.yield ++ us)) := by simp [NoAssign]
    have hc : ((loop w e r k body).code address n).filter Instruction.isStore =
        (body.code address (n + 2)).filter Instruction.isStore := by
      simp [code, Instruction.isStore, e.filter_isStore, r.filter_isStore]
    simp only [yield, List.cons_append, List.append_assoc]
    rw [hc, storesOf_terminal w (by decide), e.storesOf_yield (r.noAssign hk), r.storesOf_yield hk,
      storesOf_terminal k (by decide), ih (n + 2) h]
  | read k l x r => simp [storesOf, targets, yield, code, Instruction.isStore, List.filter_cons]
  | write k l e r =>
    have hc : ((write k l e r).code address n).filter Instruction.isStore = [] := by
      rw [code, List.filter_append, e.filter_isStore]
      rfl
    simp only [yield, List.cons_append, List.append_assoc, List.nil_append]
    rw [hc, storesOf_terminal k (by decide), storesOf_terminal l (by decide),
      e.storesOf_yield (by simp [NoAssign]), storesOf_terminal r (by decide)]
    rfl
  | compound b cs e ih =>
    have ha : Ahead follow (e.1 :: us) := by simp [follow, CommandCategory.follow]
    simp only [yield, code, List.cons_append, List.append_assoc, List.nil_append]
    rw [storesOf_terminal b (by decide), ih n ha, storesOf_terminal e (by decide)]
  | empty => rfl
  | noCommands => rfl
  | next s c cs ihc ihcs =>
    simp only [yield, code, List.cons_append, List.append_assoc, List.filter_append]
    rw [storesOf_terminal s (by decide), ihc n (cs.ahead h), ihcs _ h]
  | commands c cs ihc ihcs =>
    simp only [yield, code, List.append_assoc, List.filter_append]
    rw [ihc n (cs.ahead h), ihcs _ h]

/-! ### Reading and writing -/

@[simp] lemma exchanges_nil : exchanges [] = [] := rfl

@[simp] lemma exchanges_cons (t : Token) (ts : List Token) :
    exchanges (t :: ts) = (Instruction.exchange? t.kind).toList ++ exchanges ts := by
  cases ht : Instruction.exchange? t.kind <;> simp [exchanges, ht]

@[simp] lemma exchanges_append (ts us : List Token) :
    exchanges (ts ++ us) = exchanges ts ++ exchanges us := by simp [exchanges]

@[simp] lemma ExprTree.exchanges_yield {c : ExprCategory} (D : ExprTree c) :
    exchanges D.yield = [] := by
  induction D <;> simp_all [yield, Instruction.exchange?]

@[simp] lemma ExprTree.filter_isExchange {c : ExprCategory} (D : ExprTree c) :
    (D.code address).filter Instruction.isExchange = [] :=
  D.filter_code (fun _ => rfl) (fun _ => rfl) fun _ => rfl

/-- **Values are exchanged** in the order of the text. -/
lemma CommandTree.filter_isExchange {c : CommandCategory} (C : CommandTree c) (n : Nat) :
    (C.code address n).filter Instruction.isExchange = exchanges C.yield := by
  induction C generalizing n <;>
    simp_all [code, yield, List.filter_cons, Instruction.isExchange, Instruction.exchange?]

/-! ### Numbers of instructions -/

@[simp] lemma occurrences_nil (ks : List Kind) : occurrences ks [] = 0 := rfl

@[simp] lemma occurrences_cons (ks : List Kind) (t : Token) (ts : List Token) :
    occurrences ks (t :: ts) = occurrences ks ts + if t.kind ∈ ks then 1 else 0 := by
  simp [occurrences, List.countP_cons]

@[simp] lemma occurrences_append (ks : List Kind) (ts us : List Token) :
    occurrences ks (ts ++ us) = occurrences ks ts + occurrences ks us := by simp [occurrences]

lemma eq_kind_iff (op : Operator) : (.plus = op.kind ↔ .add = op) ∧
    (.minus = op.kind ↔ .subtract = op) ∧ (.star = op.kind ↔ .multiply = op) ∧
    (.slash = op.kind ↔ .divide = op) ∧ (.lessEqual = op.kind ↔ .lessOrEqual = op) := by
  cases op <;> decide

lemma ne_kind (op : Operator) {k : Kind}
    (hk : k ∉ [Kind.plus, .minus, .star, .slash, .lessEqual]) : ¬ k = op.kind := by
  rintro rfl
  cases op <;> exact hk (by decide)

@[simp] lemma ExprTree.count_operate {c : ExprCategory} (D : ExprTree c) (op : Operator) :
    (D.code address).count (.operate op) = occurrences [op.kind] D.yield := by
  induction D <;> simp_all [code, yield, List.count_cons, eq_kind_iff, ne_kind] <;> omega

lemma CommandTree.count_operate {c : CommandCategory} (C : CommandTree c) (n : Nat)
    (op : Operator) : (C.code address n).count (.operate op) = occurrences [op.kind] C.yield := by
  induction C generalizing n <;> simp_all [code, yield, ne_kind]

@[simp] lemma ExprTree.length_code {c : ExprCategory} (D : ExprTree c) :
    (D.code address).length = occurrences codeKinds D.yield := by
  induction D <;> simp_all [code, yield, codeKinds] <;> omega

lemma CommandTree.length_code {c : CommandCategory} (C : CommandTree c) (n : Nat) :
    (C.code address n).length = occurrences codeKinds C.yield + 4 * C.loops := by
  induction C generalizing n <;> simp_all [code, yield, loops, codeKinds] <;> omega

/-! ### The frame -/

def frame (code : List Instruction) : List Instruction := code.filter Instruction.isFrame

@[simp] lemma frame_nil : frame [] = [] := rfl

@[simp] lemma frame_cons (i : Instruction) (code : List Instruction) :
    frame (i :: code) = if i.isFrame then i :: frame code else frame code := by
  simp [frame, List.filter_cons]

@[simp] lemma frame_append (code more : List Instruction) :
    frame (code ++ more) = frame code ++ frame more := by simp [frame]

@[simp] lemma ExprTree.frame_code {c : ExprCategory} (D : ExprTree c) :
    frame (D.code address) = [] :=
  D.filter_code (fun _ => rfl) (fun _ => rfl) fun _ => rfl

lemma CommandTree.frame_code {c : CommandCategory} (C : CommandTree c) (n : Nat) :
    frame (C.code address n) = [] := by
  induction C generalizing n <;> simp_all [code, Instruction.isFrame]

lemma CommandTree.not_mem_code {c : CommandCategory} (C : CommandTree c) (address : String → Nat)
    (n : Nat) {i : Instruction} (hi : i.isFrame = true) : i ∉ C.code address n := fun hm =>
  List.filter_eq_nil_iff.1 (C.frame_code n) i hm hi

@[simp] lemma ExprTree.occurrences_var {c : ExprCategory} (D : ExprTree c) :
    occurrences [.varKw] D.yield = 0 := by
  induction D <;> simp_all [yield]

lemma CommandTree.occurrences_var {c : CommandCategory} (C : CommandTree c) :
    occurrences [.varKw] C.yield = 0 := by
  induction C <;> simp_all [yield]

lemma getElem?_append_cons_iff {α : Type} {xs ys : List α} {x : α} (hx : x ∉ xs) (hy : x ∉ ys)
    (i : Nat) : (xs ++ x :: ys)[i]? = some x ↔ i = xs.length := by
  constructor
  · intro h
    rcases Nat.lt_trichotomy i xs.length with hi | hi | hi
    · rw [List.getElem?_append_left hi] at h
      exact absurd (List.mem_of_getElem? h) hx
    · exact hi
    · obtain ⟨j, rfl⟩ := Nat.exists_eq_add_of_lt hi
      rw [List.getElem?_append_right (by omega), Nat.add_assoc, Nat.add_sub_cancel_left,
        List.getElem?_cons_succ] at h
      exact absurd (List.mem_of_getElem? h) hy
  · rintro rfl
    simp

/-! ### Programs -/

namespace Program

variable (P : Program) (e : Terminal .eof)

lemma begin_mem_yield : .beginKw ∈ kinds P.yield := by simp [yield]

lemma fromBegin_scanned : fromBegin (P.yield ++ [e.1]) =
    P.begin.1 :: (P.body.yield ++ [P.finish.1, P.dot.1, e.1]) := by
  rw [fromBegin_append_of_mem P.begin_mem_yield, P.fromBegin_yield]
  simp

lemma declaredNames_scanned : declaredNames (P.yield ++ [e.1]) = P.variableNames := by
  rw [declaredNames_append_of_begin P.begin_mem_yield, P.declaredNames_yield]

lemma var_mem_scanned : .varKw ∈ kinds (P.yield ++ [e.1]) ↔ P.declarations.isSome = true := by
  have hb : .varKw ∉ kinds P.body.yield := by
    intro hm
    obtain ⟨t, ht, hk⟩ := List.mem_map.1 hm
    exact List.countP_eq_zero.1 P.body.occurrences_var t ht (by simp [hk])
  rw [← P.var_mem_header]
  simp [yield, hb]

lemma filter_code {p : Instruction → Bool} (hs : p .start = false)
    (ha : ∀ n, p (.allocate n) = false) (hh : p .halt = false) :
    P.code.filter p = (P.body.code (addressIn P.variableNames) 0).filter p := by
  have he : P.allocation.filter p = [] := by
    unfold allocation
    cases P.declarations <;> simp [ha]
  simp [code, he, hs, hh]

lemma ahead_finish : Ahead follow [P.finish.1, P.dot.1, e.1] := by
  simp [follow, CommandCategory.follow]

lemma filter_isValue : P.code.filter Instruction.isValue =
    (operands false (fromBegin (P.yield ++ [e.1]))).map
      (operandCode (addressIn P.variableNames)) := by
  have hc : Covers (addressIn P.variableNames) P.body.yield _ _ :=
    P.body.covers 0 (P.ahead_finish e)
  have he : operands false [P.finish.1, P.dot.1, e.1] = [] := by simp [operands]
  have hb : operands false (fromBegin (P.yield ++ [e.1])) =
      operands false (P.body.yield ++ [P.finish.1, P.dot.1, e.1]) := by
    simp [fromBegin_scanned, operands]
  rw [P.filter_code rfl (fun _ => rfl) rfl, hb, hc.values, he, List.map_nil, List.append_nil]

lemma filter_isStore : P.code.filter Instruction.isStore =
    storesOf (addressIn P.variableNames) (fromBegin (P.yield ++ [e.1])) := by
  have he : ∀ address, storesOf address [P.finish.1, P.dot.1, e.1] = [] := by
    simp [storesOf, targets]
  rw [P.filter_code rfl (fun _ => rfl) rfl, fromBegin_scanned,
    storesOf_terminal P.begin (by decide), P.body.storesOf_yield 0 (P.ahead_finish e), he,
    List.append_nil]

lemma filter_isExchange : P.code.filter Instruction.isExchange =
    exchanges (fromBegin (P.yield ++ [e.1])) := by
  rw [P.filter_code rfl (fun _ => rfl) rfl, P.body.filter_isExchange, fromBegin_scanned]
  simp [Instruction.exchange?]

lemma count_operate (op : Operator) : P.code.count (.operate op) =
    occurrences [op.kind] (fromBegin (P.yield ++ [e.1])) := by
  have hf := congrArg List.length (P.filter_code (p := (· == .operate op)) rfl (fun _ => rfl) rfl)
  rw [← List.countP_eq_length_filter, ← List.countP_eq_length_filter] at hf
  rw [List.count, hf, ← List.count, P.body.count_operate, fromBegin_scanned]
  simp [ne_kind]

lemma length_code : P.code.length = 2 + (if P.declarations.isSome then 1 else 0) +
    occurrences codeKinds (fromBegin (P.yield ++ [e.1])) +
      4 * whiles (fromBegin (P.yield ++ [e.1])) := by
  have ha : P.allocation.length = if P.declarations.isSome then 1 else 0 := by
    unfold allocation
    cases P.declarations <;> rfl
  have hk : occurrences codeKinds (fromBegin (P.yield ++ [e.1])) =
      occurrences codeKinds P.body.yield := by
    simp [fromBegin_scanned, codeKinds]
  have hw : whiles (fromBegin (P.yield ++ [e.1])) = P.body.loops := by
    simp [fromBegin_scanned, P.body.whiles_yield]
  rw [code, hk, hw]
  simp [ha, P.body.length_code]
  omega

lemma start_iff (i : Nat) : P.code[i]? = some .start ↔ i = 0 := by
  have ha : .start ∉ P.allocation := by
    unfold allocation
    cases P.declarations <;> simp
  have hb : .start ∉ P.body.code (addressIn P.variableNames) 0 := P.body.not_mem_code _ _ rfl
  have hcode : P.code = [] ++ .start ::
      (P.allocation ++ P.body.code (addressIn P.variableNames) 0 ++ [.halt]) := rfl
  rw [hcode, getElem?_append_cons_iff (by simp) (by simp [ha, hb])]
  rfl

lemma halt_iff (i : Nat) : P.code[i]? = some .halt ↔ i + 1 = P.code.length := by
  have ha : .halt ∉ P.allocation := by
    unfold allocation
    cases P.declarations <;> simp
  have hb : .halt ∉ P.body.code (addressIn P.variableNames) 0 := P.body.not_mem_code _ _ rfl
  rw [code, getElem?_append_cons_iff (by simp [ha, hb]) (by simp)]
  simp only [List.length_append, List.length_cons, List.length_nil]
  omega

lemma allocate_iff (i n : Nat) : P.code[i]? = some (.allocate n) ↔
    i = 1 ∧ P.declarations.isSome = true ∧ n = P.variableNames.length := by
  have hb : .allocate n ∉ P.body.code (addressIn P.variableNames) 0 := P.body.not_mem_code _ _ rfl
  by_cases hn : P.declarations.isSome = true ∧ n = P.variableNames.length
  · obtain ⟨hs, rfl⟩ := hn
    obtain ⟨ds, hd⟩ := Option.isSome_iff_exists.1 hs
    have hcode : P.code = [.start] ++ .allocate P.variableNames.length ::
        (P.body.code (addressIn P.variableNames) 0 ++ [.halt]) := by
      simp [code, allocation, variableNames, names, hd]
    rw [hcode, getElem?_append_cons_iff (by simp) (by simp [hb])]
    simp [hs]
  · have ha : .allocate n ∉ P.allocation := by
      unfold allocation variableNames names at *
      cases hd : P.declarations <;> simp_all
    have hm : .allocate n ∉ P.code := by simp [code, ha, hb]
    exact iff_of_false (fun h => hm (List.mem_of_getElem? h)) fun h => hn h.2

end Program

/-- **Nothing is lost and nothing is added**: the code of a program holds the instructions that its
tokens ask for. -/
theorem compile_inventory (source : String) (ts : List Token) (code : List Instruction)
    (ht : tokenize source = .ok ts) (hc : compile source = .ok code) : Inventory ts code := by
  obtain ⟨P, e, hP, -, rfl⟩ := exists_program_of_compile hc
  obtain rfl := Except.ok.inj (ht.symm.trans hP)
  constructor
  case values => rw [P.declaredNames_scanned e, P.filter_isValue e]
  case stores => rw [P.declaredNames_scanned e, P.filter_isStore e, storesOf]
  case exchanges => exact P.filter_isExchange e
  case operators => exact P.count_operate e
  case start_iff => exact P.start_iff
  case halt_iff => exact P.halt_iff
  case allocate_iff =>
    simpa only [P.declaredNames_scanned e, P.var_mem_scanned e] using P.allocate_iff
  case length_eq => simpa only [P.var_mem_scanned e] using P.length_code e

/-- A program with an instruction of each sort, but for the operators. -/
def emptying : String := "program p;var a:integer;begin read(a);while 1<=a do a:=a-1;write(a)end."

theorem compile_inventory_emptying : ∃ ts code, tokenize emptying = .ok ts ∧
    compile emptying = .ok code ∧ code.length = 18 ∧ Inventory ts code := by
  have hc : compile emptying = .ok [.start, .allocate 1, .read, .store 0, .anchor ⟨1⟩, .constant 1,
      .load 0, .operate .lessOrEqual, .jumpIfFalse ⟨2⟩, .load 0, .constant 1, .operate .subtract,
      .store 0, .jump ⟨1⟩, .anchor ⟨2⟩, .load 0, .write, .halt] := by decide +kernel
  obtain ⟨P, e, ht, -⟩ := exists_program_of_compile hc
  exact ⟨_, _, ht, hc, rfl, compile_inventory _ _ _ ht hc⟩

end Grammar

end OnePass
