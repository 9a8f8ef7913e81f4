import OnePass.Proofs.LoopLabels
import OnePass.Proofs.NormalForm
import OnePass.Proofs.Printing
import OnePass.Proofs.Rewording
import OnePass.Proofs.TableRuns

/-!
Commands one after the other: the code of two lists of commands with a semicolon between them is the
code of the first and then that of the second, with other labels. The labels go up by two for each
loop of the first list. This holds also where the first list ends with an empty command.
-/

namespace OnePass

/-- The instruction with all labels `k` higher. -/
def Instruction.shift (k : Nat) : Instruction → Instruction
  | jumpIfFalse l => jumpIfFalse ⟨l.number + k⟩
  | jump l => jump ⟨l.number + k⟩
  | anchor l => anchor ⟨l.number + k⟩
  | i => i

namespace Grammar

variable {address : String → Nat}

/-! ### Code behind other code -/

@[simp] lemma ExprTree.map_shift {c : ExprCategory} (D : ExprTree c) (k : Nat) :
    (D.code address).map (Instruction.shift k) = D.code address := by
  induction D <;> simp_all [code, Instruction.shift]

/-- **Labels start where they are told to**: with more labels in use the code is the same, but for
its labels. -/
lemma CommandTree.code_shift {c : CommandCategory} (C : CommandTree c) (n k : Nat) :
    C.code address (n + k) = (C.code address n).map (Instruction.shift k) := by
  induction C generalizing n with
  | loop w e r d body ih =>
    have hb : body.code address (n + k + 2) =
        (body.code address (n + 2)).map (Instruction.shift k) := by
      rw [Nat.add_right_comm, ih]
    simp [code, hb, Instruction.shift, Nat.add_right_comm]
  | compound b cs e ih => exact ih n
  | next s c cs ihc ihcs =>
    rw [code, code, List.map_append, ihc, Nat.add_right_comm, ihcs]
  | commands c cs ihc ihcs =>
    rw [code, code, List.map_append, ihc, Nat.add_right_comm, ihcs]
  | _ => simp [code, Instruction.shift]

namespace CommandTree

/-- Two lists of commands with a semicolon between them. -/
def join : CommandTree .commands → Terminal .semicolon → CommandTree .commands →
    CommandTree .commands
  | .commands c cs, s, .commands d ds => .commands c (cs.append (.next s d ds))

lemma code_append (cs ds : CommandTree .moreCommands) (n : Nat) :
    (cs.append ds).code address n = cs.code address n ++ ds.code address (n + 2 * cs.loops) := by
  fun_induction append cs ds generalizing n with
  | case1 ds => simp [code, loops]
  | case2 ds s c cs ih => simp [code, loops, ih, Nat.mul_add, Nat.add_assoc]

lemma yield_join (C : CommandTree .commands) (s : Terminal .semicolon)
    (D : CommandTree .commands) : (C.join s D).yield = C.yield ++ s.1 :: D.yield := by
  cases C with
  | commands c cs =>
    cases D with
    | commands d ds => simp [join, yield, yield_append]

lemma code_join (C : CommandTree .commands) (s : Terminal .semicolon)
    (D : CommandTree .commands) (n : Nat) :
    (C.join s D).code address n =
      C.code address n ++ (D.code address n).map (Instruction.shift (2 * C.loops)) := by
  rw [← code_shift]
  cases C with
  | commands c cs =>
    cases D with
    | commands d ds => simp [join, code, loops, code_append, Nat.mul_add, Nat.add_assoc]

end CommandTree

/-! ### What is around the commands -/

/-- The tokens of a program around its commands. -/
structure Brackets where
  header : List Token
  begin : Terminal .beginKw
  finish : Terminal .endKw
  dot : Terminal .dot
  begin_not_mem : .beginKw ∉ kinds header

def Brackets.around (B : Brackets) (ts : List Token) : List Token :=
  B.header ++ B.begin.1 :: ts ++ [B.finish.1, B.dot.1]

lemma Brackets.beforeBegin_around (B : Brackets) (ts : List Token) :
    beforeBegin (B.around ts) = B.header := by
  rw [around, List.append_assoc, beforeBegin_append_of_not_mem B.begin_not_mem]
  simp [beforeBegin]

lemma Brackets.fromBegin_around (B : Brackets) (ts : List Token) :
    fromBegin (B.around ts) = B.begin.1 :: (ts ++ [B.finish.1, B.dot.1]) := by
  rw [around, List.append_assoc, fromBegin_append_of_not_mem B.begin_not_mem]
  simp [fromBegin]

lemma Brackets.around_inj {B B' : Brackets} {ts ts' : List Token}
    (h : B.around ts = B'.around ts') : B = B' ∧ ts = ts' := by
  have hh := congrArg beforeBegin h
  have hf := congrArg fromBegin h
  rw [beforeBegin_around, beforeBegin_around] at hh
  rw [fromBegin_around, fromBegin_around] at hf
  obtain ⟨hb, ht⟩ := List.cons.inj hf
  obtain ⟨rfl, he⟩ := List.append_inj' ht rfl
  simp only [List.cons.injEq, and_true] at he
  cases B
  cases B'
  simp_all [Subtype.ext_iff]

namespace Program

def brackets (P : Program) : Brackets :=
  ⟨P.header, P.begin, P.finish, P.dot, P.begin_not_mem_header⟩

/-- The program with more commands after its own. -/
def join (P : Program) (s : Terminal .semicolon) (C : CommandTree .commands) : Program :=
  { P with body := P.body.join s C }

lemma yield_join (P : Program) (s : Terminal .semicolon) (C : CommandTree .commands) :
    (P.join s C).yield = P.brackets.around (P.body.yield ++ s.1 :: C.yield) := by
  rw [← CommandTree.yield_join]
  rfl

lemma code_join (P : Program) (s : Terminal .semicolon) (C : CommandTree .commands) :
    (P.join s C).code = .start :: P.allocation ++ P.body.code (addressIn P.variableNames) 0 ++
      (C.code (addressIn P.variableNames) 0).map (Instruction.shift (2 * P.body.loops)) ++
        [.halt] := by
  rw [List.append_assoc (.start :: P.allocation), ← CommandTree.code_join]
  rfl

lemma allocation_header (P : Program) : P.allocation =
    if .varKw ∈ kinds P.header then [.allocate P.variableNames.length] else [] := by
  rw [P.allocation_eq]
  simp only [P.var_mem_header]

lemma variableNames_of_brackets {P Q : Program} (h : P.brackets = Q.brackets) :
    P.variableNames = Q.variableNames := by
  have hh : P.header = Q.header := congrArg Brackets.header h
  rw [← P.declaredNames_header, ← Q.declaredNames_header, hh]

lemma WellNamed.join {P Q : Program} (hP : P.WellNamed) (hQ : Q.WellNamed)
    (h : P.brackets = Q.brackets) (s : Terminal .semicolon) : (P.join s Q.body).WellNamed := by
  refine ⟨hP.1, ?_⟩
  show Known P.variableNames (P.body.join s Q.body).yield
  rw [CommandTree.yield_join, known_append, known_cons]
  exact ⟨hP.2, by simp, variableNames_of_brackets h ▸ hQ.2⟩

end Program

/-! ### Sequences -/

abbrev spellings (ts : List Token) : List (Kind × String) := ts.map fun t => (t.kind, t.lexeme)

lemma scansAs_of_spellings {source : String} {xs : List (Kind × String)}
    (h : (tokenize source).map spellings = .ok (xs ++ [(.eof, "")])) : ScansAs source xs := by
  obtain ⟨ts, ht, hm⟩ := map_eq_ok.1 h
  obtain ⟨us, e, rfl, -⟩ := tokenize_ok ht
  rw [spellings, List.map_append] at hm
  obtain ⟨hu, he⟩ := List.append_inj' hm rfl
  simp only [List.map_cons, List.map_nil, List.cons.injEq, Prod.mk.injEq, and_true] at he
  exact ⟨us, e.1, ht, hu, he⟩

/-- The kinds and lexemes of a program, given those of its header and of its commands. -/
def bracketed (header commands : List (Kind × String)) : List (Kind × String) :=
  header ++ (.beginKw, "begin") :: commands ++ [(.endKw, "end"), (.dot, ".")]

/-- The instructions before those of the commands. -/
def entry (header : List (Kind × String)) (table : SymbolTable) : List Instruction :=
  .start :: if .varKw ∈ header.map Prod.fst then [.allocate table.size] else []

lemma Program.entry_eq {P : Program} {header : List (Kind × String)} {table : SymbolTable}
    (hk : kinds P.header = header.map Prod.fst) (hn : table.names = P.variableNames) :
    entry header table = .start :: P.allocation := by
  rw [P.allocation_header, hk, entry, SymbolTable.size, hn]

lemma exists_around {ts : List Token} {header commands : List (Kind × String)}
    (h : spellings ts = bracketed header commands) (hb : .beginKw ∉ header.map Prod.fst) :
    ∃ (B : Brackets) (us : List Token), ts = B.around us ∧ spellings us = commands ∧
      kinds B.header = header.map Prod.fst ∧
      ∀ vs, spellings (B.around vs) = bracketed header (spellings vs) := by
  obtain ⟨before, last, rfl, h₁, h₂⟩ := List.map_eq_append_iff.1 h
  obtain ⟨hs, us, rfl, rfl, h₃⟩ := List.map_eq_append_iff.1 h₁
  obtain ⟨b, us, rfl, hbk, rfl⟩ := List.map_eq_cons_iff.1 h₃
  obtain ⟨f, last, rfl, hf, h₄⟩ := List.map_eq_cons_iff.1 h₂
  obtain ⟨d, last, rfl, hd, h₅⟩ := List.map_eq_cons_iff.1 h₄
  obtain rfl := List.map_eq_nil_iff.1 h₅
  have hk : kinds hs = (spellings hs).map Prod.fst := by simp [kinds]
  refine ⟨⟨hs, ⟨b, (Prod.mk.inj hbk).1⟩, ⟨f, (Prod.mk.inj hf).1⟩, ⟨d, (Prod.mk.inj hd).1⟩,
    hk ▸ hb⟩, us, rfl, rfl, hk, fun vs => ?_⟩
  simp [Brackets.around, bracketed, hbk, hf, hd]

lemma exists_program_on {source : String} {ts : List Token} {table : SymbolTable}
    (hs : ScansAs source (spellings ts)) (h : (compileInto #[] source).result = .ok table) :
    ∃ P : Program, P.yield = ts ∧ P.WellNamed ∧ table.names = P.variableNames ∧
      (compileInto #[] source).code.toList = P.code := by
  obtain ⟨P, e, ht, hP, hn, hc⟩ := exists_program_of_compileInto h
  obtain ⟨us, e', hs, hm, -⟩ := hs
  obtain ⟨rfl, -⟩ := List.append_inj' (Except.ok.inj (hs.symm.trans ht)) rfl
  have hd : P.yield.Nodup := (List.nodup_append.1 (nodup_of_tokenize ht)).1
  obtain ⟨Q, hQ, hnames, hcode, hw⟩ := Program.exists_reworded hd (forall₂_means hm.symm)
  exact ⟨Q, hQ, hw hP, by rw [hn, hnames], by simp [hc, hcode]⟩

/-- **Commands one after the other**: if two programs with the same header are accepted, so is the
one with the commands of both, and with the same table. Its code is theirs, one after the other,
with the labels of the second shifted. -/
theorem compileInto_sequence (header first second : List (Kind × String))
    (source₁ source₂ source : String) (table₁ table₂ : SymbolTable)
    (hb : .beginKw ∉ header.map Prod.fst)
    (h₁ : ScansAs source₁ (bracketed header first))
    (h₂ : ScansAs source₂ (bracketed header second))
    (h : ScansAs source (bracketed header (first ++ (.semicolon, ";") :: second)))
    (hc₁ : (compileInto #[] source₁).result = .ok table₁)
    (hc₂ : (compileInto #[] source₂).result = .ok table₂) :
    table₂ = table₁ ∧ (compileInto #[] source).result = .ok table₁ ∧
    ∃ B₁ B₂ : List Instruction,
      (compileInto #[] source₁).code.toList = entry header table₁ ++ B₁ ++ [.halt] ∧
      (compileInto #[] source₂).code.toList = entry header table₁ ++ B₂ ++ [.halt] ∧
      (compileInto #[] source).code.toList = entry header table₁ ++ B₁ ++
        B₂.map (.shift (2 * (first.map Prod.fst).count .whileKw)) ++ [.halt] := by
  obtain ⟨ts, e, ht, hm, hek, -⟩ := h
  -- The three token lists have the same brackets, and so both bodies fit into one program.
  obtain ⟨B, us, rfl, hu, hk, hB⟩ := exists_around hm hb
  obtain ⟨us₁, rest, rfl, rfl, hr⟩ := List.map_eq_append_iff.1 hu
  obtain ⟨s, us₂, rfl, hsemi, rfl⟩ := List.map_eq_cons_iff.1 hr
  rw [← hB] at h₁ h₂
  obtain ⟨P, hP, hwP, hnP, hcP⟩ := exists_program_on h₁ hc₁
  obtain ⟨Q, hQ, hwQ, hnQ, hcQ⟩ := exists_program_on h₂ hc₂
  obtain ⟨hPB, rfl⟩ := Brackets.around_inj (B := P.brackets) hP
  obtain ⟨hQB, rfl⟩ := Brackets.around_inj (B := Q.brackets) hQ
  have hPQ : P.brackets = Q.brackets := hPB.trans hQB.symm
  have hnames : P.variableNames = Q.variableNames := Program.variableNames_of_brackets hPQ
  have hkP : kinds P.header = header.map Prod.fst := (congrArg (kinds ·.header) hPB).trans hk
  have hkQ : kinds Q.header = header.map Prod.fst := (congrArg (kinds ·.header) hQB).trans hk
  have hR : (P.join ⟨s, (Prod.mk.inj hsemi).1⟩ Q.body).Derives source := by
    refine ⟨⟨e, hek⟩, ?_⟩
    rw [Program.yield_join, hPB]
    exact ht
  obtain ⟨table, hres, hn, hcode⟩ := hR.compileInto (hwP.join hwQ hPQ _) #[]
  obtain rfl : table = table₁ := SymbolTable.eq_iff_names.2 (hn.trans hnP.symm)
  -- The second body starts with the labels that the first has left.
  have hw : ((spellings P.body.yield).map Prod.fst).count .whileKw = P.body.loops := by
    rw [← P.body.whiles_yield, whiles, List.map_map]
    rfl
  refine ⟨SymbolTable.eq_iff_names.2 (by rw [hnP, hnQ, hnames]), hres,
    P.body.code (addressIn P.variableNames) 0, Q.body.code (addressIn P.variableNames) 0,
    ?_, ?_, ?_⟩
  · rw [hcP, Program.entry_eq hkP hnP, Program.code]
  · rw [hcQ, Program.entry_eq hkQ (hnP.trans hnames), hnames, Program.code]
  · rw [hcode, Program.entry_eq hkP hnP, hw, Program.code_join]
    simp

def oneVariable : List (Kind × String) :=
  [(.programKw, "program"), (.identifier, "p"), (.semicolon, ";"), (.varKw, "var"),
    (.identifier, "a"), (.colon, ":"), (.integerKw, "integer"), (.semicolon, ";")]

def bareLoop : List (Kind × String) := [(.whileKw, "while"), (.identifier, "a"), (.doKw, "do")]

def lateLoop : List (Kind × String) :=
  [(.semicolon, ";"), (.whileKw, "while"), (.number, "1"), (.doKw, "do")]

/-- A program with that header. -/
def withOneVariable (commands : String) : String :=
  "program p;var a:integer;begin " ++ commands ++ " end."

theorem compileInto_sequence_loops : ∃ table B₁ B₂,
    (compileInto #[] (withOneVariable "while a do")).code.toList =
      entry oneVariable table ++ B₁ ++ [.halt] ∧
    (compileInto #[] (withOneVariable ";while 1 do")).code.toList =
      entry oneVariable table ++ B₂ ++ [.halt] ∧
    (compileInto #[] (withOneVariable "while a do;;while 1 do")).result = .ok table ∧
    (compileInto #[] (withOneVariable "while a do;;while 1 do")).code.toList =
      entry oneVariable table ++ B₁ ++ B₂.map (.shift 2) ++ [.halt] := by
  have h₁ : ScansAs (withOneVariable "while a do") (bracketed oneVariable bareLoop) :=
    scansAs_of_spellings (by decide +kernel)
  have h₂ : ScansAs (withOneVariable ";while 1 do") (bracketed oneVariable lateLoop) :=
    scansAs_of_spellings (by decide +kernel)
  have h : ScansAs (withOneVariable "while a do;;while 1 do")
      (bracketed oneVariable (bareLoop ++ (.semicolon, ";") :: lateLoop)) :=
    scansAs_of_spellings (by decide +kernel)
  have hc₁ : (compileInto #[] (withOneVariable "while a do")).result = .ok ⟨["a"], by decide⟩ := by
    decide +kernel
  have hc₂ : (compileInto #[] (withOneVariable ";while 1 do")).result =
      .ok ⟨["a"], by decide⟩ := by decide +kernel
  obtain ⟨-, hr, B₁, B₂, hB₁, hB₂, hB⟩ :=
    compileInto_sequence _ _ _ _ _ _ _ _ (by decide) h₁ h₂ h hc₁ hc₂
  exact ⟨_, B₁, B₂, hB₁, hB₂, hr, hB⟩

end Grammar

end OnePass
