import Mathlib.Data.List.Forall2
import OnePass.Proofs.Translation

/-!
Two texts that differ in their layout and in the spelling of their names.

The parser looks at the kinds of tokens; at lexemes only to compare names with each other, and at
places only to report them. So if two lists of tokens correspond, and names are equal in one where
they are equal in the other, then two runs over them do the same at each token.
-/

namespace OnePass

/-- Corresponding tokens have the same kind. The names among them are in `A` and are spelled as `r`
says, which keeps apart what is in `A`. -/
structure Renames (r : String → String) (A : List String) (R : Token → Token → Prop) : Prop where
  kind_eq : ∀ {t t'}, R t t' → t'.kind = t.kind
  lexeme_eq : ∀ {t t'}, R t t' → t.kind ≠ .identifier → t'.lexeme = t.lexeme
  name_eq : ∀ {t t'}, R t t' → t.kind = .identifier → t'.lexeme = r t.lexeme
  name_mem : ∀ {t t'}, R t t' → t.kind = .identifier → t.lexeme ∈ A
  injOn : ∀ x ∈ A, ∀ y ∈ A, r x = r y → x = y

def Named (R : Token → Token → Prop) (t t' : Token) : Prop := R t t' ∧ t.kind = .identifier

variable {r : String → String} {A : List String} {R : Token → Token → Prop} {t t' : Token}
  {ts ts' : List Token} {d d' : Draft} {α β γ δ : Type}

/-! ### Corresponding results -/

/-- Faults of the same sort at corresponding tokens. -/
inductive Fault.Renamed (R : Token → Token → Prop) : Fault → Fault → Prop
  | literalTooLarge {t t' : Token} (h : R t t') (hk : t.kind = .number) :
      Renamed R (.literalTooLarge t.position t.lexeme) (.literalTooLarge t'.position t'.lexeme)
  | unexpected (w : Wanted) {t t' : Token} (h : R t t') :
      Renamed R (.unexpected w t) (.unexpected w t')
  | redeclared {t t' : Token} (h : R t t') (hk : t.kind = .identifier) :
      Renamed R (.redeclared t) (.redeclared t')
  | undeclared {t t' : Token} (h : R t t') (hk : t.kind = .identifier) :
      Renamed R (.undeclared t) (.undeclared t')

/-- The same labels and code, and corresponding names at the same addresses. -/
structure Draft.Renamed (r : String → String) (A : List String) (d d' : Draft) : Prop where
  names_eq : d'.symbols.names = d.symbols.names.map r
  names_mem : ∀ x ∈ d.symbols.names, x ∈ A
  labels_eq : d'.labels = d.labels
  code_eq : d'.code = d.code

/-- Two computations end alike: with results that are related by `P`, or with corresponding faults
after the same code. -/
inductive Alike (R : Token → Token → Prop) (P : α → β → Prop) :
    Except Stop α → Except Stop β → Prop
  | ok {a b} (h : P a b) : Alike R P (.ok a) (.ok b)
  | error {s s' : Stop} (hf : s.fault.Renamed R s'.fault) (hc : s'.draft.code = s.draft.code) :
      Alike R P (.error s) (.error s')

lemma Alike.bind {P : α → β → Prop} {Q : γ → δ → Prop} {x : Except Stop α} {y : Except Stop β}
    {f : α → Except Stop γ} {g : β → Except Stop δ} (h : Alike R P x y)
    (hfg : ∀ a b, P a b → Alike R Q (f a) (g b)) : Alike R Q (x >>= f) (y >>= g) := by
  cases h with
  | ok h => exact hfg _ _ h
  | error hf hc => exact .error hf hc

/-! ### Drafts -/

namespace Draft.Renamed

lemma emit (hd : d.Renamed r A d') (i : Instruction) : (d.emit i).Renamed r A (d'.emit i) :=
  ⟨hd.names_eq, hd.names_mem, hd.labels_eq, congrArg (·.push i) hd.code_eq⟩

lemma newLabel (hd : d.Renamed r A d') :
    d'.newLabel.1 = d.newLabel.1 ∧ d.newLabel.2.Renamed r A d'.newLabel.2 := by
  have hl : d'.labels + 1 = d.labels + 1 := congrArg (· + 1) hd.labels_eq
  exact ⟨congrArg Label.mk hl, hd.names_eq, hd.names_mem, hl, hd.code_eq⟩

lemma size_eq (hd : d.Renamed r A d') : d'.symbols.size = d.symbols.size := by
  rw [SymbolTable.size, SymbolTable.size, hd.names_eq, List.length_map]

lemma fail (hd : d.Renamed r A d') {f f' : Fault} (hf : f.Renamed R f') {P : α → β → Prop} :
    Alike R P (d.fail f) (d'.fail f') :=
  .error hf hd.code_eq

end Draft.Renamed

lemma idxOf_map {names : List String} (hr : ∀ x ∈ A, ∀ y ∈ A, r x = r y → x = y)
    (hn : ∀ x ∈ names, x ∈ A) {x : String} (hx : x ∈ A) :
    (names.map r).idxOf (r x) = names.idxOf x := by
  induction names with
  | nil => rfl
  | cons y names ih =>
    rw [List.forall_mem_cons] at hn
    rw [List.map_cons, List.idxOf_cons, List.idxOf_cons, ih hn.2]
    by_cases hy : y = x
    · subst hy
      rw [beq_self_eq_true, beq_self_eq_true]
    · have hry : r y ≠ r x := fun h => hy (hr y hn.1 x hx h)
      rw [beq_false_of_ne hy, beq_false_of_ne hry]

namespace Renames

lemma mem_names_iff (h : Renames r A R) (hd : d.Renamed r A d') (ht : R t t')
    (hk : t.kind = .identifier) :
    t'.lexeme ∈ d'.symbols.names ↔ t.lexeme ∈ d.symbols.names := by
  rw [h.name_eq ht hk, hd.names_eq, List.mem_map]
  constructor
  · rintro ⟨x, hx, hxt⟩
    rwa [← h.injOn x (hd.names_mem x hx) t.lexeme (h.name_mem ht hk) hxt]
  · exact fun hx => ⟨_, hx, rfl⟩

lemma addressOf (h : Renames r A R) (hd : d.Renamed r A d') (ht : R t t')
    (hk : t.kind = .identifier) : Alike R (· = ·) (d.addressOf t) (d'.addressOf t') := by
  by_cases hm : t.lexeme ∈ d.symbols.names
  · rw [Draft.addressOf_of_mem hm, Draft.addressOf_of_mem ((h.mem_names_iff hd ht hk).2 hm)]
    refine .ok ?_
    rw [h.name_eq ht hk, hd.names_eq, idxOf_map h.injOn hd.names_mem (h.name_mem ht hk)]
  · have hm' : t'.lexeme ∉ d'.symbols.names := mt (h.mem_names_iff hd ht hk).1 hm
    rw [Draft.addressOf_of_not_mem hm, Draft.addressOf_of_not_mem hm']
    exact .error (.undeclared ht hk) hd.code_eq

lemma valueOf (h : Renames r A R) (hd : d.Renamed r A d') (ht : R t t') (hk : t.kind = .number) :
    Alike R (· = ·) (d.valueOf t) (d'.valueOf t') := by
  have hl : t'.lexeme = t.lexeme := h.lexeme_eq ht (by simp [hk])
  unfold Draft.valueOf
  cases hv : Text.literalValue? t.lexeme with
  | some n =>
    rw [hl, hv]
    exact .ok rfl
  | none =>
    have hv' : Text.literalValue? t'.lexeme = none := hl ▸ hv
    rw [hv']
    exact hd.fail (.literalTooLarge ht hk)

lemma declare (h : Renames r A R) (hd : d.Renamed r A d') (ht : R t t')
    (hk : t.kind = .identifier) :
    Alike R (Draft.Renamed r A) (d.declare t) (d'.declare t') := by
  by_cases hm : t.lexeme ∈ d.symbols.names
  · rw [Draft.declare_of_mem hm, Draft.declare_of_mem ((h.mem_names_iff hd ht hk).2 hm)]
    exact .error (.redeclared ht hk) hd.code_eq
  · have hm' : t'.lexeme ∉ d'.symbols.names := mt (h.mem_names_iff hd ht hk).1 hm
    obtain ⟨e, he, hn, hl, hc⟩ := Draft.declare_of_not_mem hm
    obtain ⟨e', he', hn', hl', hc'⟩ := Draft.declare_of_not_mem hm'
    rw [he, he']
    refine .ok ⟨?_, ?_, by rw [hl', hl, hd.labels_eq], by rw [hc', hc, hd.code_eq]⟩
    · rw [hn', hn, hd.names_eq, h.name_eq ht hk, List.map_append, List.map_singleton]
    · intro x hx
      rw [hn, List.mem_append, List.mem_singleton] at hx
      rcases hx with hx | rfl
      · exact hd.names_mem x hx
      · exact h.name_mem ht hk

lemma declareAll (h : Renames r A R) (hd : d.Renamed r A d')
    (hts : List.Forall₂ (Named R) ts ts') :
    Alike R (Draft.Renamed r A) (d.declareAll ts) (d'.declareAll ts') := by
  induction hts generalizing d d' with
  | nil => exact .ok hd
  | cons ht _ ih => exact (h.declare hd ht.1 ht.2).bind fun _ _ hd => ih hd

end Renames

/-! ### Goals -/

/-- Goals that hold no names. -/
def Goal.plain : Goal → Bool
  | .name _ | .moreNames _ | .closeGroup _ => false
  | _ => true

/-- Goals that differ in the names they hold only. -/
inductive Goal.Renamed (R : Token → Token → Prop) : Goal → Goal → Prop
  | plain {g : Goal} (h : g.plain = true) : Renamed R g g
  | name {ts ts' : List Token} (h : List.Forall₂ (Named R) ts ts') :
      Renamed R (.name ts) (.name ts')
  | moreNames {ts ts' : List Token} (h : List.Forall₂ (Named R) ts ts') :
      Renamed R (.moreNames ts) (.moreNames ts')
  | closeGroup {ts ts' : List Token} (h : List.Forall₂ (Named R) ts ts') :
      Renamed R (.closeGroup ts) (.closeGroup ts')

lemma Goal.forall₂_renamed {gs : List Goal} (h : gs.all Goal.plain = true) :
    List.Forall₂ (Goal.Renamed R) gs gs :=
  List.forall₂_same.2 fun g hg => .plain (List.all_eq_true.1 h g hg)

inductive Reply.Renamed (r : String → String) (A : List String) (R : Token → Token → Prop) :
    Reply → Reply → Prop
  | pass {d d' : Draft} (hd : d.Renamed r A d') : Renamed r A R (.pass d) (.pass d')
  | take {d d' : Draft} {gs gs' : List Goal} (hd : d.Renamed r A d')
      (hgs : List.Forall₂ (Goal.Renamed R) gs gs') : Renamed r A R (.take d gs) (.take d' gs')

structure Parse.Renamed (r : String → String) (A : List String) (R : Token → Token → Prop)
    (p p' : Parse) : Prop where
  goals : List.Forall₂ (Goal.Renamed R) p.goals p'.goals
  draft : p.draft.Renamed r A p'.draft

lemma Parse.Renamed.of_plain {gs : List Goal} (h : gs.all Goal.plain = true)
    (hd : d.Renamed r A d') : (Parse.mk gs d).Renamed r A R ⟨gs, d'⟩ :=
  ⟨Goal.forall₂_renamed h, hd⟩

lemma Alike.pass (hd : d.Renamed r A d') :
    Alike R (Reply.Renamed r A R) (.ok (.pass d)) (.ok (.pass d')) :=
  .ok (.pass hd)

lemma Alike.take (hd : d.Renamed r A d') {gs : List Goal} (h : gs.all Goal.plain = true) :
    Alike R (Reply.Renamed r A R) (.ok (.take d gs)) (.ok (.take d' gs)) :=
  .ok (.take hd (Goal.forall₂_renamed h))

/-- What is done at corresponding tokens differs in the names that are held only. -/
inductive Goal.Take.Renamed (R : Token → Token → Prop) : Take → Take → Prop
  | go {gs gs' : List Goal} (h : List.Forall₂ (Goal.Renamed R) gs gs') :
      Renamed R (.go gs) (.go gs')
  | name {ts ts' : List Token} (h : List.Forall₂ (Named R) ts ts') :
      Renamed R (.name ts) (.name ts')
  | store {gs : List Goal} (h : gs.all Goal.plain = true) : Renamed R (.store gs) (.store gs)
  | load : Renamed R .load .load
  | constant : Renamed R .constant .constant
  | loop : Renamed R .loop .loop
  | declare {ts ts' : List Token} (h : List.Forall₂ (Named R) ts ts') :
      Renamed R (.declare ts) (.declare ts')

section Table

variable {g g' : Goal} {k : Kind} {m m' : Goal.Take}

lemma Goal.Takes.renamed (h : Takes k g m) (hg : g.Renamed R g') :
    ∃ m', Takes k g' m' ∧ m.Renamed R m' := by
  cases hg with
  | name hts =>
    cases h with
    | name hk => exact ⟨_, .name hk, .name hts⟩
  | moreNames hts =>
    cases h with
    | comma hk => exact ⟨_, .comma hk, .go (.cons (.name hts) .nil)⟩
    | colon hk => exact ⟨_, .colon hk, .go (.cons (.plain rfl) (.cons (.closeGroup hts) .nil))⟩
  | closeGroup hts =>
    cases h with
    | endGroup hk => exact ⟨_, .endGroup hk, .declare hts⟩
  | plain hg =>
    refine ⟨m, h, ?_⟩
    cases h with
    | name | comma | colon | endGroup => cases hg
    | var => exact .go (.cons (.name .nil) .nil)
    | nextGroup => exact .name .nil
    | assign | target => exact .store rfl
    | load => exact .load
    | constant => exact .constant
    | loop => exact .loop
    | _ => exact .go (Goal.forall₂_renamed rfl)

lemma Goal.Renamed.takes_of (hg : g.Renamed R g') (h : Takes k g' m') : ∃ m, Takes k g m := by
  cases hg with
  | plain => exact ⟨m', h⟩
  | name =>
    cases h with
    | name hk => exact ⟨_, .name hk⟩
  | moreNames =>
    cases h with
    | comma hk => exact ⟨_, .comma hk⟩
    | colon hk => exact ⟨_, .colon hk⟩
  | closeGroup =>
    cases h with
    | endGroup hk => exact ⟨_, .endGroup hk⟩

lemma Goal.Renamed.otherwise_eq (hg : g.Renamed R g') : g'.otherwise = g.otherwise := by
  cases hg <;> rfl

end Table

namespace Renames

variable {g g' : Goal}

/-- The draft and the token enter through `addressOf`, `valueOf` and `declareAll` alone. -/
lemma take (h : Renames r A R) (hd : d.Renamed r A d') (ht : R t t') {m m' : Goal.Take}
    (hm : Goal.Takes t.kind g m) (hmm : m.Renamed R m') :
    Alike R (Reply.Renamed r A R) (m.on d t) (m'.on d' t') := by
  cases hmm with
  | go hgs => exact .ok (.take hd hgs)
  | name hts =>
    have hk : t.kind = .identifier := by cases hm <;> assumption
    exact .ok (.take hd (.cons (.moreNames (List.rel_append hts (.cons ⟨ht, hk⟩ .nil))) .nil))
  | store hgs =>
    have hk : t.kind = .identifier := by cases hm <;> assumption
    refine (h.addressOf hd ht hk).bind fun a b hab => ?_
    subst hab
    exact .take hd (by simp [hgs, Goal.plain])
  | load =>
    have hk : t.kind = .identifier := by cases hm; assumption
    refine (h.addressOf hd ht hk).bind fun a b hab => ?_
    subst hab
    exact .take (hd.emit _) rfl
  | constant =>
    have hk : t.kind = .number := by cases hm; assumption
    refine (h.valueOf hd ht hk).bind fun a b hab => ?_
    subst hab
    exact .take (hd.emit _) rfl
  | loop =>
    obtain ⟨h₁, hd₁⟩ := hd.newLabel
    obtain ⟨h₂, hd₂⟩ := hd₁.newLabel
    simp only [Goal.Take.on, h₁, h₂]
    exact .take (hd₂.emit _) rfl
  | declare hts => exact (h.declareAll hd hts).bind fun _ _ hd => .take hd rfl

lemma skip (hd : d.Renamed r A d') (ht : R t t') (s : Goal.Skip) :
    Alike R (Reply.Renamed r A R) (s.on d t) (s.on d' t') := by
  cases s with
  | pass => exact .pass hd
  | emit i => exact .pass (hd.emit i)
  | allocate =>
    simp only [Goal.Skip.on, hd.size_eq]
    exact .pass (hd.emit _)
  | want w => exact hd.fail (.unexpected w ht)

/-- **One goal at corresponding tokens**: it is met alike. -/
lemma meet (h : Renames r A R) (hd : d.Renamed r A d') (ht : R t t') (hg : g.Renamed R g') :
    Alike R (Reply.Renamed r A R) (g.meet d t) (g'.meet d' t') := by
  have hk := h.kind_eq ht
  rcases g.meet_cases t with ⟨m, hm, he⟩ | ⟨hn, he⟩
  · obtain ⟨m', hm', hmm⟩ := hm.renamed hg
    rw [← hk] at hm'
    rw [he, hm'.meet_eq]
    exact h.take hd ht hm hmm
  · have hn' : ∀ m', ¬ Goal.Takes t'.kind g' m' := fun m' hm' => by
      rw [hk] at hm'
      obtain ⟨m, hm⟩ := hg.takes_of hm'
      exact hn m hm
    rw [he, Goal.meet_of_not_takes hn', hg.otherwise_eq]
    exact skip hd ht g.otherwise

/-! ### Runs -/

/-- **The goals at corresponding tokens** are met alike, until one takes the token. -/
lemma settle (h : Renames r A R) (hd : d.Renamed r A d') (ht : R t t') {gs gs' : List Goal}
    (hgs : List.Forall₂ (Goal.Renamed R) gs gs') :
    Alike R (Parse.Renamed r A R) (Parse.settle t gs d) (Parse.settle t' gs' d') := by
  induction hgs generalizing d d' with
  | nil => exact .ok ⟨.nil, hd⟩
  | cons hg hgs ih =>
    refine (h.meet hd ht hg).bind fun a b hab => ?_
    cases hab with
    | pass hd => exact ih hd
    | take hd hnew => exact .ok ⟨List.rel_append hnew hgs, hd⟩

lemma run (h : Renames r A R) {p p' : Parse} (hp : p.Renamed r A R p')
    (hts : List.Forall₂ R ts ts') : Alike R (Parse.Renamed r A R) (p.run ts) (p'.run ts') := by
  induction hts generalizing p p' with
  | nil => exact .ok hp
  | cons ht _ ih => exact (h.settle hp.draft ht hp.goals).bind fun _ _ hp => ih hp

end Renames

namespace Grammar

/-! ### Reports -/

/-- A message that quotes a name. -/
def Quotes (F : Token → Fault) : Prop :=
  ∃ before after : String, ∀ t : Token, t.kind = .identifier →
    (F t).description = before ++ "'" ++ t.lexeme ++ "'" ++ after

lemma quotes_unexpected (w : Wanted) : Quotes (.unexpected w) := by
  refine ⟨"expected " ++ w.describe ++ ", found " ++ "identifier" ++ " ", "", fun t hk => ?_⟩
  have hq : " '" = " " ++ "'" := by decide
  have hd : t.describe = "identifier" ++ " '" ++ t.lexeme ++ "'" := by
    rw [Token.describe, hk]
    rfl
  have hf : (Fault.unexpected w t).description =
      "expected " ++ w.describe ++ ", found " ++ t.describe := rfl
  rw [hf, hd, hq]
  simp only [String.append_assoc, String.append_empty]

lemma quotes_redeclared : Quotes .redeclared := by
  refine ⟨"variable ", " already declared", fun t _ => ?_⟩
  have hq : "variable '" = "variable " ++ "'" := by decide
  have hq' : "' already declared" = "'" ++ " already declared" := by decide
  have hf : (Fault.redeclared t).description = "variable '" ++ t.lexeme ++ "' already declared" :=
    rfl
  rw [hf, hq, hq']
  simp only [String.append_assoc]

lemma quotes_undeclared : Quotes .undeclared := by
  refine ⟨"variable ", " not declared", fun t _ => ?_⟩
  have hq : "variable '" = "variable " ++ "'" := by decide
  have hq' : "' not declared" = "'" ++ " not declared" := by decide
  have hf : (Fault.undeclared t).description = "variable '" ++ t.lexeme ++ "' not declared" := rfl
  rw [hf, hq, hq']
  simp only [String.append_assoc]

/-! ### Texts -/

/-- The number of tokens up to the name of the program. -/
def nameEnd (ts : List Token) : Nat :=
  if kinds (ts.take 2) = [.programKw, .identifier] then 2 else 0

/-- The tokens after the name of the program. -/
def afterName (ts : List Token) : List Token := ts.drop (nameEnd ts)

/-- The names of anything but the program. -/
def otherNames (ts : List Token) : List String := (identifiers (afterName ts)).map Token.lexeme

/-- The second list is the first with its names renamed by `r`, which keeps them apart. Only the
program may have any name. -/
structure Renaming (r : String → String) (ts ts' : List Token) : Prop where
  kinds_eq : kinds ts' = kinds ts
  lexeme_eq : ∀ x ∈ ts.zip ts', x.1.kind ≠ .identifier → x.2.lexeme = x.1.lexeme
  name_eq : ∀ x ∈ (afterName ts).zip (afterName ts'), x.1.kind = .identifier →
    x.2.lexeme = r x.1.lexeme
  injOn : ∀ x ∈ otherNames ts, ∀ y ∈ otherNames ts, r x = r y → x = y

instance (r : String → String) (ts ts' : List Token) : Decidable (Renaming r ts ts') :=
  decidable_of_iff
    (kinds ts' = kinds ts ∧
      (∀ x ∈ ts.zip ts', x.1.kind ≠ .identifier → x.2.lexeme = x.1.lexeme) ∧
      (∀ x ∈ (afterName ts).zip (afterName ts'), x.1.kind = .identifier →
        x.2.lexeme = r x.1.lexeme) ∧
      ∀ x ∈ otherNames ts, ∀ y ∈ otherNames ts, r x = r y → x = y)
    ⟨fun ⟨hk, hl, hn, hi⟩ => ⟨hk, hl, hn, hi⟩, fun h => ⟨h.1, h.2, h.3, h.4⟩⟩

/-- The reports on two faults say the same of the tokens at one place. Where a report quotes the
name that stands there, the other quotes the new name. -/
structure SameReport (r : String → String) (ts ts' : List Token) (f f' : Fault) : Prop where
  stage_eq : f'.stage = f.stage
  at_token : ∃ (i : Nat) (t t' : Token), ts[i]? = some t ∧ ts'[i]? = some t' ∧
    f.position = t.position ∧ f'.position = t'.position ∧
    (t.kind = .identifier → ∃ before after : String,
      f.description = before ++ "'" ++ t.lexeme ++ "'" ++ after ∧
        f'.description = before ++ "'" ++ r t.lexeme ++ "'" ++ after) ∧
    (t.kind ≠ .identifier → f'.description = f.description)

/-- The tokens at the same place of two lists, after the name of the program. -/
def Matching (ts ts' : List Token) (t t' : Token) : Prop :=
  ∃ i : Nat, ts[i]? = some t ∧ ts'[i]? = some t' ∧ (t, t') ∈ (afterName ts).zip (afterName ts')

lemma run_afterName (ts : List Token) (d : Draft) :
    Parse.run ⟨Goal.program, d⟩ ts =
      Parse.run ⟨Goal.program.drop (nameEnd ts), d⟩ (afterName ts) := by
  rw [afterName, nameEnd]
  split
  case isFalse => rfl
  case isTrue h =>
    rcases ts with - | ⟨a, - | ⟨b, us⟩⟩
    · simp [kinds] at h
    · simp [kinds] at h
    · simp only [kinds, List.take_succ_cons, List.take_zero, List.map_cons, List.map_nil,
        List.cons.injEq, and_true] at h
      simp [Parse.step, Parse.settle, Goal.program, Goal.meet, h]

lemma renamed_initial (sink : Array Instruction) (n n' : Nat) :
    (initial sink n).Renamed r A (initial sink n') :=
  ⟨rfl, by simp [initial, Draft.onto, SymbolTable.empty], rfl, rfl⟩

namespace Renaming

lemma nameEnd_eq (h : Renaming r ts ts') : nameEnd ts' = nameEnd ts := by
  have hk : kinds (ts'.take 2) = kinds (ts.take 2) := by
    rw [kinds, kinds, List.map_take, List.map_take]
    exact congrArg (List.take 2) h.kinds_eq
  rw [nameEnd, nameEnd, hk]

lemma renames (h : Renaming r ts ts') : Renames r (otherNames ts) (Matching ts ts') where
  kind_eq := by
    rintro t t' ⟨i, hi, hi', -⟩
    have hk : (kinds ts')[i]? = (kinds ts)[i]? := by rw [h.kinds_eq]
    simpa [kinds, hi, hi'] using hk
  lexeme_eq := by
    rintro t t' ⟨i, hi, hi', -⟩ hk
    have hz : (ts.zip ts')[i]? = some (t, t') := List.getElem?_zip_eq_some.2 ⟨hi, hi'⟩
    exact h.lexeme_eq _ (List.mem_of_getElem? hz) hk
  name_eq := fun ⟨_, _, _, hz⟩ hk => h.name_eq _ hz hk
  name_mem := by
    rintro t t' ⟨-, -, -, hz⟩ hk
    exact List.mem_map.2 ⟨t, List.mem_filter.2 ⟨(List.of_mem_zip hz).1, by simp [hk]⟩, rfl⟩
  injOn := h.injOn

lemma matching_afterName (h : Renaming r ts ts') :
    List.Forall₂ (Matching ts ts') (afterName ts) (afterName ts') := by
  have hl : ts.length = ts'.length := by
    simpa [kinds] using congrArg List.length h.kinds_eq.symm
  have hm : ∀ (i : Nat) (t t' : Token), (afterName ts)[i]? = some t →
      (afterName ts')[i]? = some t' → Matching ts ts' t t' := by
    intro i t t' hi hi'
    have hz : ((afterName ts).zip (afterName ts'))[i]? = some (t, t') :=
      List.getElem?_zip_eq_some.2 ⟨hi, hi'⟩
    rw [afterName, List.getElem?_drop] at hi hi'
    rw [h.nameEnd_eq] at hi'
    exact ⟨_, hi, hi', List.mem_of_getElem? hz⟩
  rw [List.forall₂_iff_get]
  refine ⟨by simp [afterName, h.nameEnd_eq, hl], fun i hi hi' => ?_⟩
  exact hm i _ _ (List.getElem?_eq_getElem hi) (List.getElem?_eq_getElem hi')

lemma run_program (h : Renaming r ts ts') (hd : d.Renamed r (otherNames ts) d') :
    Alike (Matching ts ts') (Parse.Renamed r (otherNames ts) (Matching ts ts'))
      (Parse.run ⟨Goal.program, d⟩ ts) (Parse.run ⟨Goal.program, d'⟩ ts') := by
  rw [run_afterName, run_afterName, h.nameEnd_eq]
  refine h.renames.run (.of_plain ?_ hd) h.matching_afterName
  rw [nameEnd]
  split <;> rfl

lemma sameReport_of_quotes (h : Renaming r ts ts') (ht : Matching ts ts' t t') {F : Token → Fault}
    (hs : (F t').stage = (F t).stage) (hp : ∀ x, (F x).position = x.position) (hq : Quotes F)
    (hn : t.kind ≠ .identifier → (F t').description = (F t).description) :
    SameReport r ts ts' (F t) (F t') := by
  obtain ⟨i, hi, hi', -⟩ := id ht
  obtain ⟨before, after, hq⟩ := hq
  refine ⟨hs, i, t, t', hi, hi', hp t, hp t', fun hk => ⟨before, after, hq t hk, ?_⟩, hn⟩
  have hk' : t'.kind = .identifier := (h.renames.kind_eq ht).trans hk
  rw [hq t' hk', h.renames.name_eq ht hk]

lemma sameReport (h : Renaming r ts ts') {f f' : Fault} (hf : f.Renamed (Matching ts ts') f') :
    SameReport r ts ts' f f' := by
  cases hf with
  | @literalTooLarge t t' ht hk =>
    obtain ⟨i, hi, hi', -⟩ := id ht
    have hl : t'.lexeme = t.lexeme := h.renames.lexeme_eq ht (by simp [hk])
    refine ⟨rfl, i, t, t', hi, hi', rfl, rfl, fun hi => ?_, fun _ => ?_⟩
    · cases hk.symm.trans hi
    · exact congrArg (fun s => "integer literal " ++ s ++ " is out of range") hl
  | @unexpected w t t' ht =>
    refine h.sameReport_of_quotes (F := .unexpected w) ht rfl (fun x => rfl) (quotes_unexpected w)
      fun hk => ?_
    have hd : t'.describe = t.describe := by
      rw [Token.describe, Token.describe, h.renames.kind_eq ht, h.renames.lexeme_eq ht hk]
    exact congrArg (fun s => "expected " ++ w.describe ++ ", found " ++ s) hd
  | redeclared ht hk =>
    exact h.sameReport_of_quotes (F := .redeclared) ht rfl (fun x => rfl) quotes_redeclared
      fun hn => absurd hk hn
  | undeclared ht hk =>
    exact h.sameReport_of_quotes (F := .undeclared) ht rfl (fun x => rfl) quotes_undeclared
      fun hn => absurd hk hn

end Renaming

lemma toList_eq_map {table table' : SymbolTable} (h : table'.names = table.names.map r) :
    table'.toList = table.toList.map fun s => { s with name := r s.name } := by
  rw [SymbolTable.toList, SymbolTable.toList, h, List.zipIdx_map, List.map_map, List.map_map]
  rfl

/-- **Layout and naming do not matter**: if two texts differ in the places of their tokens and in
the spelling of their names only, they compile to the same code, with the same addresses or with the
same report. -/
theorem compileInto_renamed (source source' : String) (ts ts' : List Token) (r : String → String)
    (ht : tokenize source = .ok ts) (ht' : tokenize source' = .ok ts') (hr : Renaming r ts ts') :
    (compileInto #[] source').code = (compileInto #[] source).code ∧
      ((∃ table table', (compileInto #[] source).result = .ok table ∧
          (compileInto #[] source').result = .ok table' ∧
          table'.toList = table.toList.map fun s => { s with name := r s.name }) ∨
        ∃ f f', (compileInto #[] source).result = .error f ∧
          (compileInto #[] source').result = .error f' ∧ SameReport r ts ts' f f') := by
  -- The two parses run side by side and are renamed to each other at every step.
  have hrun := hr.run_program (renamed_initial #[] ts.length ts'.length)
  generalize hp : Parse.run ⟨Goal.program, initial #[] ts.length⟩ ts = x at hrun
  generalize hp' : Parse.run ⟨Goal.program, initial #[] ts'.length⟩ ts' = x' at hrun
  cases hrun with
  | @ok p p' h =>
    obtain ⟨htab, hcode⟩ := compileInto_of_ok ht (map_eq_ok.2 ⟨p, hp, rfl⟩)
    obtain ⟨htab', hcode'⟩ := compileInto_of_ok ht' (map_eq_ok.2 ⟨p', hp', rfl⟩)
    refine ⟨?_, .inl ⟨_, _, htab, htab', toList_eq_map h.draft.names_eq⟩⟩
    rw [hcode, hcode', h.draft.code_eq]
  | @error s s' hf hc =>
    rw [compileInto_of_error ht (map_eq_error.2 hp), compileInto_of_error ht' (map_eq_error.2 hp')]
    exact ⟨hc, .inr ⟨s.fault, s'.fault, rfl, rfl, hr.sameReport hf⟩⟩

/-- A text with a name that is not declared. -/
def unnamed : String := "program p; var a, b: integer; begin a := b; write(c) end."

/-- The same in other words: two names are exchanged. -/
def exchanged : String := "program a;\nvar b, a: integer;\nbegin b := a; write ( d ) end."

def exchange : String → String
  | "a" => "b"
  | "b" => "a"
  | "c" => "d"
  | x => x

def tokensOf (source : String) : List Token := (tokenize source).toOption.getD []

theorem compileInto_renamed_exchanged :
    tokenize unnamed = .ok (tokensOf unnamed) ∧ tokenize exchanged = .ok (tokensOf exchanged) ∧
      Renaming exchange (tokensOf unnamed) (tokensOf exchanged) ∧
      (compileInto #[] exchanged).code = (compileInto #[] unnamed).code ∧
      ∃ f f', (compileInto #[] unnamed).result = .error f ∧
        (compileInto #[] exchanged).result = .error f' ∧
        SameReport exchange (tokensOf unnamed) (tokensOf exchanged) f f' := by
  have ht : tokenize unnamed = .ok (tokensOf unnamed) := by decide +kernel
  have ht' : tokenize exchanged = .ok (tokensOf exchanged) := by decide +kernel
  have hr : Renaming exchange (tokensOf unnamed) (tokensOf exchanged) := by decide +kernel
  have hf : (compileInto #[] unnamed).result =
      .error (.undeclared ⟨.identifier, "c", ⟨1, 51⟩⟩) := by decide +kernel
  obtain ⟨hc, hok | herr⟩ := compileInto_renamed unnamed exchanged _ _ exchange ht ht' hr
  · obtain ⟨table, -, htable, -⟩ := hok
    cases hf.symm.trans htable
  · exact ⟨ht, ht', hr, hc, herr⟩

end Grammar

end OnePass
