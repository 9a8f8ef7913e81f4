import Mathlib.Data.List.Forall2
import Mathlib.Logic.Function.Basic
import OnePass.Proofs.Tiling
import OnePass.Proofs.Translation

/-!
Programs in other words: a derivation with another token in the place of each of its own.

Of a token a program uses the kind; of a name the lexeme, and of a literal the value. Where these
stay the same, so does the code.
-/

namespace OnePass

/-- The tokens mean the same: names have the same lexeme and literals the same value. -/
structure Token.Means (t t' : Token) : Prop where
  kind_eq : t'.kind = t.kind
  name_eq : t.kind = .identifier → t'.lexeme = t.lexeme
  value_eq : t.kind = .number →
    Text.decimalValue t'.lexeme.toList = Text.decimalValue t.lexeme.toList

lemma forall₂_means {ts us : List Token}
    (h : us.map (fun t => (t.kind, t.lexeme)) = ts.map fun t => (t.kind, t.lexeme)) :
    List.Forall₂ Token.Means ts us := by
  rw [← List.forall₂_eq_eq_eq, List.forall₂_map_left_iff, List.forall₂_map_right_iff] at h
  refine h.flip.imp fun t u htu => ?_
  obtain ⟨hk, hl⟩ := Prod.mk.inj htu
  exact ⟨hk, fun _ => hl, fun _ => by rw [hl]⟩

namespace Grammar

/-- A change of tokens that keeps their kinds. -/
structure Rewording where
  token : Token → Token
  kind_eq : ∀ t, (token t).kind = t.kind

namespace Rewording

def terminal (f : Rewording) {k : Kind} (x : Terminal k) : Terminal k :=
  ⟨f.token x.1, (f.kind_eq x.1).trans x.2⟩

@[simp] lemma terminal_val (f : Rewording) {k : Kind} (x : Terminal k) :
    (f.terminal x).1 = f.token x.1 := rfl

/-- Means the same in the new words, all over the tokens. -/
def Keeps (f : Rewording) (ts : List Token) : Prop := ∀ t ∈ ts, t.Means (f.token t)

variable {f : Rewording} {ts us : List Token}

@[simp] lemma keeps_cons {t : Token} : f.Keeps (t :: ts) ↔ t.Means (f.token t) ∧ f.Keeps ts := by
  simp [Keeps]

@[simp] lemma keeps_append : f.Keeps (ts ++ us) ↔ f.Keeps ts ∧ f.Keeps us := by
  simp [Keeps, or_imp, forall_and]

lemma Keeps.lexeme_eq (h : f.Keeps ts) {t : Token} (ht : t ∈ ts) (hk : t.kind = .identifier) :
    (f.token t).lexeme = t.lexeme := (h t ht).name_eq hk

lemma Keeps.known {names : List String} (h : f.Keeps ts) (hk : Known names ts) :
    Known names (ts.map f.token) := by
  intro x hx hi
  obtain ⟨t, ht, rfl⟩ := List.mem_map.1 hx
  have hi' : t.kind = .identifier := (f.kind_eq t).symm.trans hi
  rw [h.lexeme_eq ht hi']
  exact hk t ht hi'

end Rewording

/-! ### Expressions and commands -/

variable {f : Rewording} {address : String → Nat}

def ExprTree.reword (f : Rewording) : {c : ExprCategory} → ExprTree c → ExprTree c
  | _, .name x => .name (f.terminal x)
  | _, .number v => .number (f.terminal v)
  | _, .parens l e r => .parens (f.terminal l) (e.reword f) (f.terminal r)
  | _, .noFactors => .noFactors
  | _, .multiply op x xs => .multiply (f.terminal op) (x.reword f) (xs.reword f)
  | _, .divide op x xs => .divide (f.terminal op) (x.reword f) (xs.reword f)
  | _, .term x xs => .term (x.reword f) (xs.reword f)
  | _, .noTerms => .noTerms
  | _, .add op t ts => .add (f.terminal op) (t.reword f) (ts.reword f)
  | _, .subtract op t ts => .subtract (f.terminal op) (t.reword f) (ts.reword f)
  | _, .expression t ts => .expression (t.reword f) (ts.reword f)
  | _, .noComparison => .noComparison
  | _, .lessEqual op e => .lessEqual (f.terminal op) (e.reword f)

@[simp] lemma ExprTree.yield_reword {c : ExprCategory} (D : ExprTree c) :
    (D.reword f).yield = D.yield.map f.token := by
  induction D <;> simp_all [reword, yield]

lemma ExprTree.code_reword {c : ExprCategory} (D : ExprTree c) (h : f.Keeps D.yield) :
    (D.reword f).code address = D.code address := by
  induction D with
  | name x => simp [reword, code, h.lexeme_eq (t := x.1) (by simp [yield]) x.2]
  | number v => simp [reword, code, (h v.1 (by simp [yield])).value_eq v.2]
  | _ => simp_all [reword, code, yield]

def CommandTree.reword (f : Rewording) : {c : CommandCategory} → CommandTree c → CommandTree c
  | _, .assign x op e => .assign (f.terminal x) (f.terminal op) (e.reword f)
  | _, .loop w e r d body =>
    .loop (f.terminal w) (e.reword f) (r.reword f) (f.terminal d) (body.reword f)
  | _, .read k l x r => .read (f.terminal k) (f.terminal l) (f.terminal x) (f.terminal r)
  | _, .write k l e r => .write (f.terminal k) (f.terminal l) (e.reword f) (f.terminal r)
  | _, .compound b cs e => .compound (f.terminal b) (cs.reword f) (f.terminal e)
  | _, .empty => .empty
  | _, .noCommands => .noCommands
  | _, .next s c cs => .next (f.terminal s) (c.reword f) (cs.reword f)
  | _, .commands c cs => .commands (c.reword f) (cs.reword f)

@[simp] lemma CommandTree.yield_reword {c : CommandCategory} (C : CommandTree c) :
    (C.reword f).yield = C.yield.map f.token := by
  induction C <;> simp_all [reword, yield]

@[simp] lemma CommandTree.loops_reword {c : CommandCategory} (C : CommandTree c) :
    (C.reword f).loops = C.loops := by
  induction C <;> simp_all [reword, loops]

lemma CommandTree.code_reword {c : CommandCategory} (C : CommandTree c) (h : f.Keeps C.yield)
    (n : Nat) : (C.reword f).code address n = C.code address n := by
  induction C generalizing n with
  | assign x op e =>
    simp only [yield, Rewording.keeps_cons] at h
    simp [reword, code, e.code_reword h.2.2, h.1.name_eq x.2]
  | loop w e r d body ih =>
    simp only [yield, List.cons_append, Rewording.keeps_cons, Rewording.keeps_append] at h
    simp [reword, code, e.code_reword h.2.1.1, r.code_reword h.2.1.2, ih h.2.2.2]
  | read k l x r =>
    simp only [yield, Rewording.keeps_cons] at h
    simp [reword, code, h.2.2.1.name_eq x.2]
  | write k l e r =>
    simp only [yield, List.cons_append, Rewording.keeps_cons, Rewording.keeps_append] at h
    simp [reword, code, e.code_reword h.2.2.1]
  | _ => simp_all [reword, code, yield]

/-! ### Programs -/

def Group.reword (f : Rewording) (g : Group) : Group where
  first := f.terminal g.first
  more := g.more.map fun p => (f.terminal p.1, f.terminal p.2)
  colon := f.terminal g.colon
  type := f.terminal g.type
  semicolon := f.terminal g.semicolon

def Declarations.reword (f : Rewording) (ds : Declarations) : Declarations where
  var := f.terminal ds.var
  first := ds.first.reword f
  more := ds.more.map (Group.reword f)

lemma Group.yield_reword (g : Group) : (g.reword f).yield = g.yield.map f.token := by
  simp [Group.yield, Group.reword, moreNamesYield, List.flatMap_map, List.map_flatMap]

lemma Group.names_reword (g : Group) : (g.reword f).names = g.names.map f.token := by
  simp [Group.names, Group.reword]

lemma Declarations.groups_reword (ds : Declarations) :
    (ds.reword f).groups = ds.groups.map (Group.reword f) := rfl

lemma Declarations.yield_reword (ds : Declarations) :
    (ds.reword f).yield = ds.yield.map f.token := by
  have hv : (ds.reword f).var.1 = f.token ds.var.1 := rfl
  simp [Declarations.yield, groups_reword, hv, List.flatMap_map, List.map_flatMap,
    Group.yield_reword]

lemma Declarations.names_reword (ds : Declarations) :
    (ds.reword f).names = ds.names.map f.token := by
  simp [Declarations.names, groups_reword, List.flatMap_map, List.map_flatMap,
    Group.names_reword]

namespace Program

def reword (f : Rewording) (P : Program) : Program where
  program := f.terminal P.program
  name := f.terminal P.name
  semicolon := f.terminal P.semicolon
  declarations := P.declarations.map (Declarations.reword f)
  begin := f.terminal P.begin
  body := P.body.reword f
  finish := f.terminal P.finish
  dot := f.terminal P.dot

lemma yield_reword (P : Program) : (P.reword f).yield = P.yield.map f.token := by
  cases hd : P.declarations <;>
    simp [yield, header, reword, hd, Declarations.yield_reword]

lemma names_reword (P : Program) : (P.reword f).names = P.names.map f.token := by
  cases hd : P.declarations <;> simp [names, reword, hd, Declarations.names_reword]

lemma variableNames_reword {P : Program} (h : f.Keeps P.yield) :
    (P.reword f).variableNames = P.variableNames := by
  have hm : ∀ t ∈ P.names, t ∈ P.yield ∧ t.kind = .identifier := by
    intro t ht
    rw [names] at ht
    cases hd : P.declarations with
    | none => simp [hd] at ht
    | some ds =>
      rw [hd, Option.elim_some, Declarations.names, ← identifiers_groups] at ht
      obtain ⟨hm, hk⟩ := List.mem_filter.1 ht
      refine ⟨?_, by simpa using hk⟩
      simp [yield, header, hd, Declarations.yield, hm]
  rw [variableNames, variableNames, names_reword, List.map_map]
  refine List.map_congr_left fun t ht => ?_
  obtain ⟨hy, hk⟩ := hm t ht
  exact h.lexeme_eq hy hk

lemma allocation_reword (P : Program) : (P.reword f).allocation = P.allocation := by
  cases hd : P.declarations <;> simp [allocation, reword, hd, Declarations.names_reword]

/-- **In other words** a program has the same code. -/
lemma code_reword {P : Program} (h : f.Keeps P.yield) : (P.reword f).code = P.code := by
  have hb : f.Keeps P.body.yield := fun t ht => h t (by simp [yield, ht])
  rw [code, code, variableNames_reword h, allocation_reword]
  exact congrArg (.start :: P.allocation ++ · ++ [.halt]) (P.body.code_reword hb 0)

lemma wellNamed_reword {P : Program} (h : f.Keeps P.yield) (hP : P.WellNamed) :
    (P.reword f).WellNamed := by
  have hb : f.Keeps P.body.yield := fun t ht => h t (by simp [yield, ht])
  refine ⟨?_, ?_⟩
  · rw [variableNames_reword h]
    exact hP.1
  · rw [variableNames_reword h]
    exact (P.body.yield_reword (f := f)).symm ▸ hb.known hP.2

end Program

/-! ### New words for a list of tokens -/

/-- New words for the token `t`. -/
def Rewording.set (f : Rewording) {t u : Token} (h : u.kind = t.kind) : Rewording where
  token := Function.update f.token t u
  kind_eq x := by
    by_cases hx : x = t
    · rw [hx, Function.update_self, h]
    · rw [Function.update_of_ne hx, f.kind_eq]

lemma Rewording.token_set_self {t u : Token} (h : u.kind = t.kind) : (f.set h).token t = u :=
  Function.update_self ..

lemma Rewording.token_set_of_ne {t u x : Token} (h : u.kind = t.kind) (hx : x ≠ t) :
    (f.set h).token x = f.token x :=
  Function.update_of_ne hx ..

lemma exists_rewording {ts us : List Token} (hn : ts.Nodup) (h : List.Forall₂ Token.Means ts us) :
    ∃ f : Rewording, us = ts.map f.token ∧ f.Keeps ts := by
  induction h with
  | nil => exact ⟨⟨id, fun _ => rfl⟩, rfl, by simp [Rewording.Keeps]⟩
  | @cons t u ts us ht _ ih =>
    rw [List.nodup_cons] at hn
    obtain ⟨f, rfl, hf⟩ := ih hn.2
    have ht' : (f.set ht.kind_eq).token t = u := f.token_set_self ht.kind_eq
    -- No token occurs twice, so changing the first leaves the others.
    have hx : ∀ x ∈ ts, (f.set ht.kind_eq).token x = f.token x := by
      intro x hx
      refine f.token_set_of_ne ht.kind_eq ?_
      rintro rfl
      exact hn.1 hx
    refine ⟨f.set ht.kind_eq, ?_, Rewording.keeps_cons.2 ⟨by rwa [ht'], fun x hm => ?_⟩⟩
    · rw [List.map_cons, ht', List.map_congr_left hx]
    · rw [hx x hm]
      exact hf x hm

/-- **A program in other words**: tokens that mean the same as those of a program are those of a
program with the same names and the same code. -/
theorem Program.exists_reworded {P : Program} {ts : List Token} (hn : P.yield.Nodup)
    (h : List.Forall₂ Token.Means P.yield ts) :
    ∃ Q : Program, Q.yield = ts ∧ Q.variableNames = P.variableNames ∧ Q.code = P.code ∧
      (P.WellNamed → Q.WellNamed) := by
  obtain ⟨f, rfl, hf⟩ := exists_rewording hn h
  exact ⟨P.reword f, P.yield_reword, variableNames_reword hf, code_reword hf, wellNamed_reword hf⟩

/-- **Texts that mean the same**, token by token, have the same code. -/
theorem compile_reworded {source source' : String} {ts ts' : List Token}
    {code : List Instruction} (ht : tokenize source = .ok ts) (ht' : tokenize source' = .ok ts')
    (h : List.Forall₂ Token.Means ts ts') (hc : compile source = .ok code) :
    compile source' = .ok code := by
  obtain ⟨P, e, hP, hn, rfl⟩ := exists_program_of_compile hc
  obtain rfl := Except.ok.inj (ht.symm.trans hP)
  obtain ⟨us, e', rfl, -, -⟩ := tokenize_ok ht'
  have hl : us.length = P.yield.length := by simpa using h.length_eq.symm
  have hu := List.forall₂_take_append _ us [e'.1] h
  rw [hl, List.take_left] at hu
  have hd : P.yield.Nodup := (List.nodup_append.1 (nodup_of_tokenize ht)).1
  obtain ⟨Q, rfl, -, hcode, hQ⟩ := Program.exists_reworded hd hu
  rw [← hcode]
  exact Program.Derives.compile ⟨e', ht'⟩ (hQ hn)

end Grammar

end OnePass
