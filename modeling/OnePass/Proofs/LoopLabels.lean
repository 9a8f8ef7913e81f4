import Mathlib.Data.List.Nodup
import OnePass.Proofs.Translation

/-!
Labels and loops in the code of a program.

The loops of a program are numbered in the order of their `while`. Loop `i` owns the labels `2i - 1`
and `2i`, and four instructions with them: an anchor and a conditional jump around its condition,
a jump and an anchor after its body. A later loop is inside the body of an earlier one or comes
after it.
-/

namespace OnePass

/-- The label that an instruction mentions. -/
def Instruction.label? : Instruction → Option Label
  | .jumpIfFalse l | .jump l | .anchor l => some l
  | _ => none

namespace Grammar

def labels (code : List Instruction) : List Label := code.filterMap Instruction.label?

@[simp] lemma labels_nil : labels [] = [] := rfl

@[simp] lemma labels_cons (x : Instruction) (code : List Instruction) :
    labels (x :: code) = x.label?.toList ++ labels code := by
  cases hx : x.label? <;> simp [labels, hx]

@[simp] lemma labels_append (code more : List Instruction) :
    labels (code ++ more) = labels code ++ labels more := by simp [labels]

/-- The instructions that mention the labels of loop `i`. -/
def marks (i : Nat) : List Instruction :=
  [.anchor ⟨2 * i - 1⟩, .jumpIfFalse ⟨2 * i⟩, .jump ⟨2 * i - 1⟩, .anchor ⟨2 * i⟩]

/-- The number of loops that begin in a text. -/
def whiles (ts : List Token) : Nat := (kinds ts).count .whileKw

@[simp] lemma whiles_append (ts us : List Token) : whiles (ts ++ us) = whiles ts + whiles us := by
  simp [whiles]

@[simp] lemma whiles_nil : whiles [] = 0 := rfl

@[simp] lemma whiles_cons (t : Token) (ts : List Token) :
    whiles (t :: ts) = whiles ts + if t.kind = .whileKw then 1 else 0 := by
  simp [whiles, List.count_cons]

/-! ### Labels and loops of trees -/

variable {address : String → Nat}

@[simp] lemma ExprTree.labels_code {c : ExprCategory} (D : ExprTree c) :
    labels (D.code address) = [] := by
  induction D <;> simp_all [code, Instruction.label?]

@[simp] lemma ExprTree.whiles_yield {c : ExprCategory} (D : ExprTree c) : whiles D.yield = 0 := by
  induction D <;> simp_all [yield]

lemma CommandTree.mem_labels_code {c : CommandCategory} (C : CommandTree c) {n : Nat} {l : Label} :
    l ∈ labels (C.code address n) ↔ n < l.number ∧ l.number ≤ n + 2 * C.loops := by
  obtain ⟨m⟩ := l
  induction C generalizing n with
  | loop w e r d body ih =>
    have hl : labels ((CommandTree.loop w e r d body).code address n) =
        ⟨n + 1⟩ :: ⟨n + 2⟩ :: (labels (body.code address (n + 2)) ++ [⟨n + 1⟩, ⟨n + 2⟩]) := by
      simp [code, Instruction.label?]
    rw [hl]
    simp only [List.mem_cons, List.mem_append, ih, loops, Label.mk.injEq, List.not_mem_nil,
      or_false]
    omega
  | compound b cs e ih => exact ih
  | next s c cs ihc ihcs =>
    rw [code, labels_append, List.mem_append, ihc, ihcs, loops]
    simp only
    omega
  | commands c cs ihc ihcs =>
    rw [code, labels_append, List.mem_append, ihc, ihcs, loops]
    simp only
    omega
  | assign x op e =>
    rw [code, labels_append, e.labels_code, loops]
    simp [Instruction.label?]
  | write k l e r =>
    rw [code, labels_append, e.labels_code, loops]
    simp [Instruction.label?]
  | _ =>
    simp [code, loops, Instruction.label?]

lemma CommandTree.whiles_yield {c : CommandCategory} (C : CommandTree c) :
    whiles C.yield = C.loops := by
  induction C <;> simp_all [yield, loops]

/-! ### Where a loop is -/

/-- A loop with the text and the code around it. -/
structure Loop where
  textBefore : List Token
  keyword : Terminal .whileKw
  left : ExprTree .expression
  right : ExprTree .comparison
  doKw : Terminal .doKw
  body : CommandTree .command
  textAfter : List Token
  codeBefore : List Instruction
  codeAfter : List Instruction

namespace Loop

def text (L : Loop) : List Token :=
  L.textBefore ++ (CommandTree.loop L.keyword L.left L.right L.doKw L.body).yield ++ L.textAfter

def condition (L : Loop) (address : String → Nat) : List Instruction :=
  L.left.code address ++ L.right.code address

def inner (L : Loop) (address : String → Nat) (i : Nat) : List Instruction :=
  L.body.code address (2 * i)

/-- All code, if the loop has the number `i`. -/
def code (L : Loop) (address : String → Nat) (i : Nat) : List Instruction :=
  L.codeBefore ++ .anchor ⟨2 * i - 1⟩ :: L.condition address ++ .jumpIfFalse ⟨2 * i⟩ ::
    L.inner address i ++ .jump ⟨2 * i - 1⟩ :: .anchor ⟨2 * i⟩ :: L.codeAfter

/-- The loop with more around it. -/
def widen (L : Loop) (tb ta : List Token) (cb ca : List Instruction) : Loop :=
  { L with
    textBefore := tb ++ L.textBefore
    textAfter := L.textAfter ++ ta
    codeBefore := cb ++ L.codeBefore
    codeAfter := L.codeAfter ++ ca }

variable {L : Loop} {ts ts' tb ta : List Token} {cs cs' cb ca : List Instruction}
  {i j j' w w' : Nat}

lemma text_widen : (L.widen tb ta cb ca).text = tb ++ L.text ++ ta := by
  simp [text, widen]

lemma code_widen : (L.widen tb ta cb ca).code address i = cb ++ L.code address i ++ ca := by
  simp [code, widen, condition, inner]

lemma marks_sublist (L : Loop) (address : String → Nat) (i : Nat) :
    (marks i).Sublist (L.code address i) := by
  have hm : marks i = [.anchor ⟨2 * i - 1⟩] ++ [.jumpIfFalse ⟨2 * i⟩] ++
      [.jump ⟨2 * i - 1⟩, .anchor ⟨2 * i⟩] := rfl
  have hc : L.code address i =
      (L.codeBefore ++ ([.anchor ⟨2 * i - 1⟩] ++ L.condition address)) ++
        ([.jumpIfFalse ⟨2 * i⟩] ++ L.inner address i) ++
        ([.jump ⟨2 * i - 1⟩, .anchor ⟨2 * i⟩] ++ L.codeAfter) := by simp [code]
  rw [hm, hc]
  refine .append (.append ?_ ?_) ?_
  · exact (List.sublist_append_left _ _).trans (List.sublist_append_right _ _)
  · exact List.sublist_append_left _ _
  · exact List.sublist_append_left _ _

/-- Loop `i + 1` of the text `ts` with the code `cs`, among the loops `j + 1` to `w` that are all
in it. -/
structure Among (L : Loop) (address : String → Nat) (i : Nat) (ts : List Token)
    (cs : List Instruction) (j w : Nat) : Prop where
  text : L.text = ts
  code : L.code address (i + 1) = cs
  number : j + whiles L.textBefore = i
  before : ∀ l ∈ labels L.codeBefore, l.number ≤ 2 * i
  after : ∀ l ∈ labels L.codeAfter, l.number ≤ 2 * i ∨ 2 * i + 2 < l.number
  later : ∀ m, i < m → m < w →
    (marks (m + 1)).Sublist (L.inner address (i + 1)) ∨ (marks (m + 1)).Sublist L.codeAfter

/-- The code without the instructions that the loop owns. -/
def rest (L : Loop) (address : String → Nat) (i : Nat) : List Instruction :=
  L.codeBefore ++ L.condition address ++ L.inner address i ++ L.codeAfter

lemma perm_code (L : Loop) (address : String → Nat) (i : Nat) :
    (L.code address i).Perm (marks i ++ L.rest address i) := by
  refine List.perm_iff_count.2 fun x => ?_
  simp only [code, rest, marks, List.count_append, List.count_cons, List.count_nil]
  omega

lemma Among.label_rest (hL : L.Among address i ts cs j w) {l : Label}
    (h : l ∈ labels (L.rest address (i + 1))) : l.number ≤ 2 * i ∨ 2 * i + 2 < l.number := by
  have hc : labels (L.condition address) = [] := by simp [condition]
  simp only [rest, labels_append, List.mem_append, hc, List.not_mem_nil, or_false] at h
  rcases h with (h | h) | h
  · exact .inl (hL.before l h)
  · have hl := L.body.mem_labels_code.1 h
    omega
  · exact hL.after l h

lemma Among.mem_marks (hL : L.Among address i ts cs j w) {x : Instruction} {l : Label}
    (hx : x ∈ cs) (hl : x.label? = some l)
    (hn : l.number = 2 * i + 1 ∨ l.number = 2 * i + 2) : x ∈ marks (i + 1) := by
  rw [← hL.code, (L.perm_code address (i + 1)).mem_iff, List.mem_append] at hx
  rcases hx with hx | hx
  · exact hx
  · have hr := hL.label_rest (List.mem_filterMap.2 ⟨x, hx, hl⟩)
    omega

lemma Among.count_eq_one (hL : L.Among address i ts cs j w) {x : Instruction}
    (hx : x ∈ marks (i + 1)) : cs.count x = 1 := by
  have hlabel : ∃ l, x.label? = some l ∧ (l.number = 2 * i + 1 ∨ l.number = 2 * i + 2) := by
    simp only [marks, List.mem_cons, List.not_mem_nil, or_false] at hx
    rcases hx with rfl | rfl | rfl | rfl
    · exact ⟨_, rfl, .inl rfl⟩
    · exact ⟨_, rfl, .inr rfl⟩
    · exact ⟨_, rfl, .inl rfl⟩
    · exact ⟨_, rfl, .inr rfl⟩
  -- Everything but the loop's own four instructions has other labels.
  have hout : x ∉ L.rest address (i + 1) := by
    obtain ⟨l, hl, hn⟩ := hlabel
    intro hm
    have hr := hL.label_rest (List.mem_filterMap.2 ⟨x, hm, hl⟩)
    omega
  have hone : (marks (i + 1)).Nodup := by
    have hne : 2 * (i + 1) - 1 ≠ 2 * (i + 1) := by omega
    simp [marks, hne]
  rw [← hL.code, (L.perm_code address (i + 1)).count_eq, List.count_append,
    List.count_eq_zero_of_not_mem hout, List.count_eq_one_of_mem hone hx]

lemma Among.widen (hL : L.Among address i ts cs j w) (ht : ts' = tb ++ ts ++ ta)
    (hc : cs' = cb ++ cs ++ ca) (hj : j' + whiles tb = j)
    (hcb : ∀ l ∈ labels cb, l.number ≤ 2 * i)
    (hca : ∀ l ∈ labels ca, l.number ≤ 2 * i ∨ 2 * i + 2 < l.number)
    (hlater : ∀ m, w ≤ m → m < w' → (marks (m + 1)).Sublist ca) :
    (L.widen tb ta cb ca).Among address i ts' cs' j' w' where
  text := by rw [text_widen, hL.text, ht]
  code := by rw [code_widen, hL.code, hc]
  number := by
    have hn := hL.number
    simp only [Loop.widen, whiles_append]
    omega
  before := by
    intro l hl
    simp only [Loop.widen, labels_append, List.mem_append] at hl
    exact hl.elim (hcb l) (hL.before l)
  after := by
    intro l hl
    simp only [Loop.widen, labels_append, List.mem_append] at hl
    exact hl.elim (hL.after l) (hca l)
  later := by
    intro m hm hm'
    -- Up to `w` the loops are among `cs`, from there on in what is appended.
    by_cases hw : m < w
    · exact (hL.later m hm hw).imp_right fun h => h.trans (List.sublist_append_left _ _)
    · exact .inr ((hlater m (by omega) hm').trans (List.sublist_append_right _ _))

end Loop

/-- The loops of a tree, when `j` loops begin before it, have the numbers that follow. -/
def CommandTree.Numbered (address : String → Nat) {c : CommandCategory} (C : CommandTree c) :
    Prop :=
  ∀ j i, j ≤ i → i < j + C.loops →
    ∃ L : Loop, L.Among address i C.yield (C.code address (2 * j)) j (j + C.loops)

lemma CommandTree.Numbered.marks_sublist {c : CommandCategory} {C : CommandTree c}
    (h : C.Numbered address) {j m : Nat} (hj : j ≤ m) (hm : m < j + C.loops) :
    (marks (m + 1)).Sublist (C.code address (2 * j)) := by
  obtain ⟨L, hL⟩ := h j m hj hm
  rw [← hL.code]
  exact L.marks_sublist address (m + 1)

lemma numbered_loop {k : Terminal .whileKw} {e : ExprTree .expression} {r : ExprTree .comparison}
    {d : Terminal .doKw} {body : CommandTree .command} (hb : body.Numbered address) :
    (CommandTree.loop k e r d body).Numbered address := by
  intro j i hji hi
  have hloops : (CommandTree.loop k e r d body).loops = body.loops + 1 := rfl
  have ht : (CommandTree.loop k e r d body).yield =
      (k.1 :: e.yield ++ r.yield ++ [d.1]) ++ body.yield ++ [] := by simp [CommandTree.yield]
  have hc : (CommandTree.loop k e r d body).code address (2 * j) =
      (.anchor ⟨2 * j + 1⟩ :: e.code address ++ r.code address ++ [.jumpIfFalse ⟨2 * j + 2⟩]) ++
        body.code address (2 * (j + 1)) ++ [.jump ⟨2 * j + 1⟩, .anchor ⟨2 * j + 2⟩] := by
    simp [CommandTree.code, Nat.mul_add]
  rw [hloops] at hi ⊢
  -- Both labels are taken before the body is translated, so the loops in it have later numbers.
  rcases Nat.lt_or_eq_of_le hji with hlt | rfl
  · obtain ⟨L, hL⟩ := hb (j + 1) i hlt (by omega)
    have hown : ∀ l : Label, l = ⟨2 * j + 1⟩ ∨ l = ⟨2 * j + 2⟩ → l.number ≤ 2 * i := by
      rintro l (rfl | rfl)
      · show 2 * j + 1 ≤ 2 * i
        omega
      · show 2 * j + 2 ≤ 2 * i
        omega
    refine ⟨_, hL.widen ht hc (by simp) ?_ ?_ ?_⟩
    · intro l hl
      exact hown l (by simpa [Instruction.label?] using hl)
    · intro l hl
      exact .inl (hown l (by simpa [Instruction.label?] using hl))
    · intro m hm hm'
      omega
  -- The loop itself.
  · refine ⟨⟨[], k, e, r, d, body, [], [], []⟩, ?_, ?_, rfl, ?_, ?_, ?_⟩
    · simp [Loop.text]
    · simp [Loop.code, hc, Loop.condition, Loop.inner, Nat.mul_add]
    · simp
    · simp
    · intro m hm hm'
      exact .inl (hb.marks_sublist hm (by omega))

lemma numbered_sequence {a b c : CommandCategory} {A : CommandTree a} {B : CommandTree b}
    {C : CommandTree c} (hA : A.Numbered address) (hB : B.Numbered address) (tb : List Token)
    (htb : whiles tb = 0) (hy : C.yield = tb ++ A.yield ++ B.yield)
    (hl : C.loops = A.loops + B.loops)
    (hc : ∀ n, C.code address n = A.code address n ++ B.code address (n + 2 * A.loops)) :
    C.Numbered address := by
  intro j i hji hi
  rw [hl] at hi ⊢
  have hc' : C.code address (2 * j) =
      A.code address (2 * j) ++ B.code address (2 * (j + A.loops)) := by
    rw [hc, Nat.mul_add]
  by_cases hA' : i < j + A.loops
  -- The loop stands in the first part, and the labels of the second are all larger.
  · obtain ⟨L, hL⟩ := hA j i hji hA'
    have hc₁ : C.code address (2 * j) =
        [] ++ A.code address (2 * j) ++ B.code address (2 * (j + A.loops)) := hc'
    refine ⟨_, hL.widen hy hc₁ (by omega) (by simp) ?_ ?_⟩
    · intro l hm
      have hl' := B.mem_labels_code.1 hm
      omega
    · intro m hm hm'
      exact hB.marks_sublist hm (by omega)
  -- It stands in the second part, and the labels of the first are all smaller.
  · obtain ⟨L, hL⟩ := hB (j + A.loops) i (by omega) (by omega)
    have hy₂ : C.yield = tb ++ A.yield ++ B.yield ++ [] := by rw [hy, List.append_nil]
    have hc₂ : C.code address (2 * j) =
        A.code address (2 * j) ++ B.code address (2 * (j + A.loops)) ++ [] := by
      rw [hc', List.append_nil]
    have hw : whiles (tb ++ A.yield) = A.loops := by
      rw [whiles_append, htb, A.whiles_yield, Nat.zero_add]
    refine ⟨_, hL.widen hy₂ hc₂ (by omega) ?_ (by simp) ?_⟩
    · intro l hm
      have hl' := A.mem_labels_code.1 hm
      omega
    · intro m hm hm'
      omega

/-- **Loops are numbered in the order of the text.** -/
theorem CommandTree.numbered (address : String → Nat) {c : CommandCategory} (C : CommandTree c) :
    C.Numbered address := by
  induction C with
  | loop k e r d body ih => exact numbered_loop ih
  | compound b cs e ih =>
    intro j i hji hi
    obtain ⟨L, hL⟩ := ih j i hji hi
    have ht : (CommandTree.compound b cs e).yield = [b.1] ++ cs.yield ++ [e.1] := by simp [yield]
    have hc : (CommandTree.compound b cs e).code address (2 * j) =
        [] ++ cs.code address (2 * j) ++ [] := by simp [code]
    refine ⟨_, hL.widen ht hc (by simp) (by simp) (by simp) ?_⟩
    intro m hm hm'
    have hl : (CommandTree.compound b cs e).loops = cs.loops := rfl
    omega
  | next s c cs ihc ihcs =>
    exact numbered_sequence ihc ihcs [s.1] (by simp) (by simp [yield]) rfl fun n => rfl
  | commands c cs ihc ihcs =>
    exact numbered_sequence ihc ihcs [] rfl (by simp [yield]) rfl fun n => rfl
  | _ =>
    intro j i hji hi
    simp only [loops] at hi
    omega

/-! ### Programs -/

lemma Program.whiles_header (P : Program) : whiles P.header = 0 :=
  List.count_eq_zero.2 (P.not_mem_kinds_header (by decide))

lemma Program.labels_allocation (P : Program) : labels P.allocation = [] := by
  unfold Program.allocation
  cases P.declarations <;> simp [Instruction.label?]

lemma Program.whiles_yield (P : Program) (e : Terminal .eof) :
    whiles (P.yield ++ [e.1]) = P.body.loops := by
  simp [Program.yield, P.whiles_header, P.body.whiles_yield]

lemma Program.exists_loop (P : Program) (e : Terminal .eof) {i : Nat}
    (hi : i < whiles (P.yield ++ [e.1])) :
    ∃ L : Loop, L.Among (addressIn P.variableNames) i (P.yield ++ [e.1]) P.code 0
      (whiles (P.yield ++ [e.1])) := by
  rw [P.whiles_yield] at hi ⊢
  obtain ⟨L, hL⟩ := P.body.numbered (addressIn P.variableNames) 0 i (Nat.zero_le i) (by omega)
  have ht : P.yield ++ [e.1] =
      (P.header ++ [P.begin.1]) ++ P.body.yield ++ [P.finish.1, P.dot.1, e.1] := by
    simp [Program.yield]
  have hc : P.code =
      (.start :: P.allocation) ++ P.body.code (addressIn P.variableNames) (2 * 0) ++ [.halt] := rfl
  refine ⟨_, hL.widen ht hc ?_ ?_ ?_ ?_⟩
  · simp [P.whiles_header]
  · simp [P.labels_allocation, Instruction.label?]
  · simp [Instruction.label?]
  · intro m hm hm'
    omega

lemma Program.mem_labels_code (P : Program) {l : Label} :
    l ∈ labels P.code ↔ 1 ≤ l.number ∧ l.number ≤ 2 * P.body.loops := by
  have hl : labels P.code = labels (P.body.code (addressIn P.variableNames) 0) := by
    simp [Program.code, P.labels_allocation, Instruction.label?]
  rw [hl, CommandTree.mem_labels_code]
  omega

/-- `L` is loop `i` of the text `ts` with the code `cs`. -/
structure Loop.IsNth (L : Loop) (i : Nat) (ts : List Token) (cs : List Instruction) : Prop where
  text : L.text = ts
  number : whiles L.textBefore + 1 = i
  /-- The four instructions are around the condition and the body, the last two together. -/
  code : L.code (addressIn (declaredNames ts)) i = cs
  once : ∀ x ∈ marks i, cs.count x = 1
  only : ∀ x ∈ cs, x.label? = some ⟨2 * i - 1⟩ ∨ x.label? = some ⟨2 * i⟩ → x ∈ marks i
  /-- Those of a later loop are all in the body or all after the loop. -/
  nested : ∀ j, i < j → j ≤ whiles ts →
    (marks j).Sublist (L.inner (addressIn (declaredNames ts)) i) ∨ (marks j).Sublist L.codeAfter

/-- **Labels and loops**: if `w` loops begin in the text, the labels of its code are `1` to `2w`,
and each number up to `w` is the number of a loop that owns two of them. -/
theorem compile_numbers_loops (source : String) (code : List Instruction)
    (h : compile source = .ok code) :
    ∃ ts, tokenize source = .ok ts ∧
      (∀ n, (∃ x ∈ code, x.label? = some ⟨n⟩) ↔ 1 ≤ n ∧ n ≤ 2 * whiles ts) ∧
      ∀ i, 1 ≤ i → i ≤ whiles ts → ∃ L : Loop, L.IsNth i ts code := by
  obtain ⟨P, e, ht, -, rfl⟩ := exists_program_of_compile h
  have hnames : declaredNames (P.yield ++ [e.1]) = P.variableNames := by
    have hb : .beginKw ∈ kinds P.yield := by simp [Program.yield]
    rw [declaredNames, declared_append_of_begin hb, ← declaredNames, P.declaredNames_yield]
  refine ⟨P.yield ++ [e.1], ht, ?_, ?_⟩
  · intro n
    rw [P.whiles_yield]
    exact List.mem_filterMap.symm.trans P.mem_labels_code
  · intro i hi hiw
    -- The trees count loops from zero.
    obtain ⟨i, rfl⟩ := Nat.exists_eq_add_of_le' hi
    obtain ⟨L, hL⟩ := P.exists_loop e hiw
    refine ⟨L, hL.text, ?_, hnames ▸ hL.code, fun x => hL.count_eq_one, ?_, ?_⟩
    · have hn := hL.number
      omega
    · rintro x hx (hl | hl)
      · exact hL.mem_marks hx hl (.inl rfl)
      · exact hL.mem_marks hx hl (.inr rfl)
    · intro j hij hj
      obtain ⟨m, rfl⟩ := Nat.exists_eq_add_of_le' (Nat.one_le_of_lt hij)
      rw [hnames]
      exact hL.later m (by omega) hj

/-- A text with a loop in a loop and a loop after both. -/
def threeLoops : String :=
  "program p; var a: integer; begin while a do while a <= 9 do a := a + 1; while 0 do end."

def threeLoopsCode : List Instruction :=
  [.start, .allocate 1, .anchor ⟨1⟩, .load 0, .jumpIfFalse ⟨2⟩, .anchor ⟨3⟩, .load 0, .constant 9,
    .operate .lessOrEqual, .jumpIfFalse ⟨4⟩, .load 0, .constant 1, .operate .add, .store 0,
    .jump ⟨3⟩, .anchor ⟨4⟩, .jump ⟨1⟩, .anchor ⟨2⟩, .anchor ⟨5⟩, .constant 0, .jumpIfFalse ⟨6⟩,
    .jump ⟨5⟩, .anchor ⟨6⟩, .halt]

theorem compile_numbers_loops_threeLoops :
    compile threeLoops = .ok threeLoopsCode ∧
      ∃ ts, tokenize threeLoops = .ok ts ∧ whiles ts = 3 ∧
        (∀ n, (∃ x ∈ threeLoopsCode, x.label? = some ⟨n⟩) ↔ 1 ≤ n ∧ n ≤ 6) ∧
        ∀ i, 1 ≤ i → i ≤ 3 → ∃ L : Loop, L.IsNth i ts threeLoopsCode := by
  have h : compile threeLoops = .ok threeLoopsCode := by decide +kernel
  obtain ⟨ts, ht, hn, hL⟩ := compile_numbers_loops threeLoops threeLoopsCode h
  have hw : (tokenize threeLoops).map whiles = .ok 3 := by decide +kernel
  rw [ht] at hw
  have hw' : whiles ts = 3 := Except.ok.inj hw
  rw [hw'] at hn hL
  exact ⟨h, ts, ht, hw', hn, hL⟩

end Grammar

end OnePass
