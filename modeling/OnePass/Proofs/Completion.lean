import OnePass.Proofs.Emission
import OnePass.Proofs.Printing
import OnePass.Proofs.Renaming

/-!
Whatever a parse has written is the beginning of the code of a program.

The goals that are left inside the body of a program can all be met, whichever variables are
declared, by an expression that is a number and by commands that are empty. Only a `read` whose
variable is still to come cannot always be completed; but it has written nothing so far, and the
program can do without it. So the completion is one of what has been written, not of the tokens.
-/

namespace OnePass

/-- The token can stand in a text. -/
def Token.Printable (t : Token) : Prop :=
  Spells t.kind t.lexeme ∧ (t.kind = .number → (Text.literalValue? t.lexeme).isSome)

lemma Token.Printable.kind_ne_eof {t : Token} (h : t.Printable) : t.kind ≠ .eof := h.1.ne_eof

/-- A token that is spelled as its kind tells. -/
def sample (k : Kind) : Terminal k := ⟨⟨k, k.spelling?.getD "0", .start⟩, rfl⟩

lemma printable_sample {k : Kind} (h : k ∈ Kind.keywords ++ Kind.symbols) :
    (sample k).1.Printable := by
  have hw : ∀ k ∈ Kind.keywords, ((sample k).1.lexeme, k) ∈ reservedWords := by decide
  have hs : ∀ k ∈ Kind.symbols, ((sample k).1.lexeme, k) ∈ signs := by decide
  have hn : ∀ k ∈ Kind.keywords ++ Kind.symbols, k ≠ .number := by decide
  refine ⟨?_, fun hk => absurd hk (hn k h)⟩
  rcases List.mem_append.1 h with h | h
  · exact .reserved (hw k h)
  · exact .sign (hs k h)

lemma printable_zero : (sample .number).1.Printable := ⟨.numeral (by decide), by decide⟩

namespace Grammar

open Parse

/-! ### Texts of tokens -/

lemma printable_of_tokenize {source : String} {ts us : List Token} {e : Token}
    (h : tokenize source = .ok (ts ++ e :: us)) : ∀ t ∈ ts, t.Printable := by
  obtain ⟨tiles, last, -, -, ht, he⟩ := exists_tiled_of_ok ((tokenize_eq _).symm.trans h)
  intro t hm
  have htm : t ∈ tiles.map Tile.token := by
    have hl : ts <+: tiles.map Tile.token ++ [⟨.eof, "", _⟩] := ⟨_, he⟩
    rcases List.prefix_concat_iff.1 hl with rfl | hl
    · simp at he
    · exact hl.subset hm
  obtain ⟨x, hx, rfl⟩ := List.mem_map.1 htm
  obtain ⟨before, after, hb⟩ := List.append_of_mem hx
  have hf := tiled_iff.1 ht before x after hb
  exact ⟨hf.spells, fun hk => isSome_literalValue?.2 (hf.inRange hk)⟩

/-- Tokens with the same kinds and lexemes. -/
def SameText (A : List String) (t t' : Token) : Prop :=
  t'.kind = t.kind ∧ t'.lexeme = t.lexeme ∧ t.lexeme ∈ A

lemma renames_sameText (A : List String) : Renames id A (SameText A) where
  kind_eq h := h.1
  lexeme_eq h _ := h.2.1
  name_eq h _ := h.2.1
  name_mem h _ := h.2.2
  injOn _ _ _ _ h := h

lemma forall₂_sameText {A : List String} {ts us : List Token}
    (h : us.map (fun t => (t.kind, t.lexeme)) = ts.map fun t => (t.kind, t.lexeme))
    (hA : ∀ t ∈ ts, t.lexeme ∈ A) : List.Forall₂ (SameText A) ts us := by
  induction ts generalizing us with
  | nil =>
    obtain rfl := List.map_eq_nil_iff.1 h
    exact .nil
  | cons t ts ih =>
    obtain ⟨u, us, rfl, hu, hus⟩ := List.map_eq_cons_iff.1 h
    obtain ⟨hk, hl⟩ := Prod.mk.inj hu
    rw [List.forall_mem_cons] at hA
    exact .cons ⟨hk, hl, hA.1⟩ (ih hus hA.2)

/-- **Tokens that the parser accepts** are those of some text, which has the same code. -/
lemma exists_source {ts : List Token} {n : Nat} {q : Parse} (hts : ∀ t ∈ ts, t.Printable)
    (h : run ⟨Goal.program, initial #[] n⟩ (ts ++ [(default : Terminal .eof).1]) = .ok q) :
    ∃ source, compile source = .ok q.draft.code.toList := by
  -- Every token is printed with a blank before it, so no two of them can run together.
  set pieces : List Piece := ts.map fun t => ⟨" ", t.kind, t.lexeme⟩ with hpieces
  have hblank : AllBlank " ".toList := by decide
  have hs : ∀ x ∈ pieces, x.Sound := by
    intro x hx
    obtain ⟨t, ht, rfl⟩ := List.mem_map.1 hx
    exact ⟨hblank, (hts t ht).1, fun hk => isSome_literalValue?.1 ((hts t ht).2 hk)⟩
  have ha : Apart pieces := by
    rw [Apart, hpieces, List.isChain_map]
    exact (List.pairwise_of_forall fun _ _ => by simp).isChain
  -- What is scanned back has other positions, and the parser looks at kinds and lexemes only.
  obtain ⟨us, e, ht, hm, hk, hl⟩ := scansAs_print hs hblank ha
  rw [hpieces, List.map_map] at hm
  set A := (ts ++ [(default : Terminal .eof).1]).map Token.lexeme with hA
  have hm' : (us ++ [e]).map (fun t => (t.kind, t.lexeme)) =
      (ts ++ [(default : Terminal .eof).1]).map fun t => (t.kind, t.lexeme) := by
    rw [List.map_append, hm, List.map_singleton, hk, hl]
    simp [Function.comp_def, default]
  have hi : Parse.Renamed id A (SameText A) ⟨Goal.program, initial #[] n⟩
      ⟨Goal.program, initial #[] (us ++ [e]).length⟩ := .of_plain rfl (renamed_initial _ _ _)
  have hr := (renames_sameText A).run hi
    (forall₂_sameText hm' fun t ht => List.mem_map_of_mem ht)
  rw [h] at hr
  generalize hq : run ⟨Goal.program, initial #[] (us ++ [e]).length⟩ (us ++ [e]) = x at hr
  cases hr with
  | @ok _ q' hqq =>
    obtain ⟨htab, hcode⟩ := compileInto_of_ok ht (map_eq_ok.2 ⟨q', hq, rfl⟩)
    exact ⟨_, map_eq_ok.2 ⟨_, htab, by rw [hcode, hqq.draft.code_eq]⟩⟩

/-! ### What goals can still write -/

/-- A phrase that can stand in a text writes this. -/
def ExprTree.Writes {c : ExprCategory} (D : ExprTree c) (d d' : Draft) : Prop :=
  (∀ t ∈ D.yield, t.Printable) ∧ D.walk d = .ok d'

def CommandTree.Writes {c : CommandCategory} (C : CommandTree c) (d d' : Draft) : Prop :=
  (∀ t ∈ C.yield, t.Printable) ∧ C.walk d = .ok d'

/-- What may be written until the goal is met. A `read` without its variable may be given up. -/
def Writes : Goal → Draft → Draft → Prop
  | .token _, d, d' => d' = d
  | .emit i, d, d' => d' = d.emit i
  | .command, d, d' => ∃ C : CommandTree .command, C.Writes d d'
  | .moreCommands, d, d' => ∃ C : CommandTree .moreCommands, C.Writes d d'
  | .readTarget, d, d' => d' = d ∨ ∃ (x : Terminal .identifier) (a : Nat),
      x.1.Printable ∧ d.addressOf x.1 = .ok a ∧ d' = (d.emit .read).emit (.store a)
  | .factor, d, d' => ∃ D : ExprTree .factor, D.Writes d d'
  | .moreFactors, d, d' => ∃ D : ExprTree .moreFactors, D.Writes d d'
  | .moreTerms, d, d' => ∃ D : ExprTree .moreTerms, D.Writes d d'
  | .comparison, d, d' => ∃ D : ExprTree .comparison, D.Writes d d'
  | _, _, _ => False

def WritesAll : List Goal → Draft → Draft → Prop
  | [], d, d' => d' = d
  | g :: gs, d, d' => ∃ d₁, Writes g d d₁ ∧ WritesAll gs d₁ d'

variable {g : Goal} {gs hs new : List Goal} {d d' : Draft} {t : Token} {p q : Parse} {s : Stop}

lemma WritesAll.split (h : WritesAll (gs ++ hs) d d') :
    ∃ d₁, WritesAll gs d d₁ ∧ WritesAll hs d₁ d' := by
  induction gs generalizing d with
  | nil => exact ⟨d, rfl, h⟩
  | cons g gs ih =>
    obtain ⟨d₁, hg, h⟩ := h
    obtain ⟨d₂, h₁, h₂⟩ := ih h
    exact ⟨d₂, ⟨d₁, hg, h₁⟩, h₂⟩

lemma WritesAll.token {k : Kind} (h : WritesAll (.token k :: gs) d d') : WritesAll gs d d' := by
  obtain ⟨_, rfl, h⟩ := h
  exact h

lemma WritesAll.emit {i : Instruction} (h : WritesAll (.emit i :: gs) d d') :
    WritesAll gs (d.emit i) d' := by
  obtain ⟨_, rfl, h⟩ := h
  exact h

lemma WritesAll.term (h : WritesAll (Goal.term ++ gs) d d') :
    ∃ (e : ExprTree .term) (d₁ : Draft), e.Writes d d₁ ∧ WritesAll gs d₁ d' := by
  obtain ⟨d₁, ⟨f, hf⟩, d₂, ⟨fs, hfs⟩, h⟩ := h
  refine ⟨.term f fs, d₂, ⟨?_, ?_⟩, h⟩
  · rw [ExprTree.yield, List.forall_mem_append]
    exact ⟨hf.1, hfs.1⟩
  · rw [ExprTree.walk, hf.2, ok_bind, hfs.2]

lemma WritesAll.expression (h : WritesAll (Goal.expression ++ gs) d d') :
    ∃ (e : ExprTree .expression) (d₁ : Draft), e.Writes d d₁ ∧ WritesAll gs d₁ d' := by
  have ht : WritesAll (Goal.term ++ .moreTerms :: gs) d d' := h
  obtain ⟨e, d₁, he, d₂, ⟨es, hes⟩, h⟩ := ht.term
  refine ⟨.expression e es, d₂, ⟨?_, ?_⟩, h⟩
  · rw [ExprTree.yield, List.forall_mem_append]
    exact ⟨he.1, hes.1⟩
  · rw [ExprTree.walk, he.2, ok_bind, hes.2]

lemma WritesAll.commands (h : WritesAll (Goal.commands ++ gs) d d') :
    ∃ (C : CommandTree .commands) (d₁ : Draft), C.Writes d d₁ ∧ WritesAll gs d₁ d' := by
  obtain ⟨d₁, ⟨c, hc⟩, d₂, ⟨cs, hcs⟩, h⟩ := h
  refine ⟨.commands c cs, d₂, ⟨?_, ?_⟩, h⟩
  · rw [CommandTree.yield, List.forall_mem_append]
    exact ⟨hc.1, hcs.1⟩
  · rw [CommandTree.walk, hc.2, ok_bind, hcs.2]

/-! ### What one goal writes -/

lemma Writes.of_pass (hg : InBody g) (h : g.meet d t = .ok (.pass d')) : Writes g d d' := by
  have ho := Goal.otherwise_of_pass h
  cases g with
  | token k | readTarget | factor => cases ho
  | emit i =>
    cases ho
    rfl
  | command =>
    cases ho
    exact ⟨.empty, by simp [CommandTree.yield], rfl⟩
  | moreCommands =>
    cases ho
    exact ⟨.noCommands, by simp [CommandTree.yield], rfl⟩
  | moreFactors =>
    cases ho
    exact ⟨.noFactors, by simp [ExprTree.yield], rfl⟩
  | moreTerms =>
    cases ho
    exact ⟨.noTerms, by simp [ExprTree.yield], rfl⟩
  | comparison =>
    cases ho
    exact ⟨.noComparison, by simp [ExprTree.yield], rfl⟩
  | _ => exact hg.elim

/-- What the goals left behind by a goal write, that goal writes after the token it took. -/
lemma Writes.of_take (hg : InBody g) (ht : t.Printable) (h : g.meet d t = .ok (.take d' new))
    {d'' : Draft} (hs : WritesAll new d' d'') : Writes g d d'' := by
  obtain ⟨m, hm, h⟩ := Goal.takes_of_meet h
  cases hm with
  | token hk =>
    cases h
    exact hs
  | assign hk =>
    obtain ⟨a, ha, h⟩ := bind_eq_ok.1 h
    cases h
    obtain ⟨e, d₁, ⟨he, hw⟩, h₁⟩ := WritesAll.expression (WritesAll.token hs)
    obtain rfl := h₁.emit
    refine ⟨.assign ⟨t, hk⟩ (sample .assign) e, ?_, ?_⟩
    · simp only [CommandTree.yield, List.forall_mem_cons]
      exact ⟨ht, printable_sample (by decide), he⟩
    · simp [CommandTree.walk, ha, hw]
  | loop hk =>
    cases h
    obtain ⟨e, d₁, ⟨he, hw⟩, d₂, ⟨r, hr, hwr⟩, h₁⟩ := hs.expression
    obtain ⟨d₃, ⟨body, hb, hwb⟩, h₂⟩ := h₁.emit.token
    obtain rfl := h₂.emit.emit
    refine ⟨.loop ⟨t, hk⟩ e r (sample .doKw) body, ?_, ?_⟩
    · simp only [CommandTree.yield, List.forall_mem_append, List.forall_mem_cons]
      exact ⟨⟨⟨ht, he⟩, hr⟩, printable_sample (by decide), hb⟩
    · exact bind_eq_ok.2 ⟨d₁, hw, bind_eq_ok.2 ⟨d₂, hwr, bind_eq_ok.2 ⟨d₃, hwb, rfl⟩⟩⟩
  | read hk =>
    cases h
    obtain ⟨d₁, hd₁ | ⟨x, a, hx, ha, hd₁⟩, rfl⟩ := hs.token
    · -- Without its variable the command is left out.
      exact ⟨.empty, by simp [CommandTree.yield], by rw [hd₁]; rfl⟩
    · refine ⟨.read ⟨t, hk⟩ (sample .leftParen) x (sample .rightParen), ?_, ?_⟩
      · simp only [CommandTree.yield, List.forall_mem_cons]
        exact ⟨ht, printable_sample (by decide), hx, printable_sample (by decide), by simp⟩
      · simp [CommandTree.walk, ha, hd₁]
  | write hk =>
    cases h
    obtain ⟨e, d₁, ⟨he, hw⟩, h₁⟩ := hs.token.expression
    obtain rfl := h₁.token.emit
    refine ⟨.write ⟨t, hk⟩ (sample .leftParen) e (sample .rightParen), ?_, ?_⟩
    · simp only [CommandTree.yield, List.forall_mem_append, List.forall_mem_cons]
      exact ⟨⟨ht, printable_sample (by decide), he⟩, printable_sample (by decide), by simp⟩
    · simp [CommandTree.walk, hw]
  | compound hk =>
    cases h
    obtain ⟨cs, d₁, ⟨hc, hw⟩, h₁⟩ := hs.commands
    obtain rfl := h₁.token
    refine ⟨.compound ⟨t, hk⟩ cs (sample .endKw), ?_, hw⟩
    simp only [CommandTree.yield, List.forall_mem_append, List.forall_mem_cons]
    exact ⟨⟨ht, hc⟩, printable_sample (by decide), by simp⟩
  | nextCommand hk =>
    cases h
    obtain ⟨d₁, ⟨c, hc, hw⟩, _, ⟨cs, hcs, hws⟩, rfl⟩ := hs
    refine ⟨.next ⟨t, hk⟩ c cs, ?_, by rw [CommandTree.walk, hw, ok_bind, hws]⟩
    simp only [CommandTree.yield, List.forall_mem_append, List.forall_mem_cons]
    exact ⟨⟨ht, hc⟩, hcs⟩
  | target hk =>
    obtain ⟨a, ha, h⟩ := bind_eq_ok.1 h
    cases h
    obtain rfl := (WritesAll.token hs).emit.emit
    exact .inr ⟨⟨t, hk⟩, a, ht, ha, rfl⟩
  | load hk =>
    obtain ⟨a, ha, h⟩ := bind_eq_ok.1 h
    cases h
    obtain rfl := hs
    exact ⟨.name ⟨t, hk⟩, by simpa [ExprTree.yield] using ht, by simp [ExprTree.walk, ha]⟩
  | constant hk =>
    obtain ⟨v, hv, h⟩ := bind_eq_ok.1 h
    cases h
    obtain rfl := hs
    exact ⟨.number ⟨t, hk⟩, by simpa [ExprTree.yield] using ht, by simp [ExprTree.walk, hv]⟩
  | parens hk =>
    cases h
    obtain ⟨e, d₁, ⟨he, hw⟩, h₁⟩ := hs.expression
    obtain rfl := h₁.token
    refine ⟨.parens ⟨t, hk⟩ e (sample .rightParen), ?_, hw⟩
    simp only [ExprTree.yield, List.forall_mem_append, List.forall_mem_cons]
    exact ⟨⟨ht, he⟩, printable_sample (by decide), by simp⟩
  | multiply hk =>
    cases h
    obtain ⟨d₁, ⟨f, hf, hw⟩, h₁⟩ := hs
    obtain ⟨_, ⟨fs, hfs, hws⟩, rfl⟩ := WritesAll.emit h₁
    refine ⟨.multiply ⟨t, hk⟩ f fs, ?_, by rw [ExprTree.walk, hw, ok_bind, hws]⟩
    simp only [ExprTree.yield, List.forall_mem_append, List.forall_mem_cons]
    exact ⟨⟨ht, hf⟩, hfs⟩
  | divide hk =>
    cases h
    obtain ⟨d₁, ⟨f, hf, hw⟩, h₁⟩ := hs
    obtain ⟨_, ⟨fs, hfs, hws⟩, rfl⟩ := WritesAll.emit h₁
    refine ⟨.divide ⟨t, hk⟩ f fs, ?_, by rw [ExprTree.walk, hw, ok_bind, hws]⟩
    simp only [ExprTree.yield, List.forall_mem_append, List.forall_mem_cons]
    exact ⟨⟨ht, hf⟩, hfs⟩
  | add hk =>
    cases h
    obtain ⟨e, d₁, ⟨he, hw⟩, h₁⟩ := hs.term
    obtain ⟨_, ⟨es, hes, hws⟩, rfl⟩ := h₁.emit
    refine ⟨.add ⟨t, hk⟩ e es, ?_, by rw [ExprTree.walk, hw, ok_bind, hws]⟩
    simp only [ExprTree.yield, List.forall_mem_append, List.forall_mem_cons]
    exact ⟨⟨ht, he⟩, hes⟩
  | subtract hk =>
    cases h
    obtain ⟨e, d₁, ⟨he, hw⟩, h₁⟩ := hs.term
    obtain ⟨_, ⟨es, hes, hws⟩, rfl⟩ := h₁.emit
    refine ⟨.subtract ⟨t, hk⟩ e es, ?_, by rw [ExprTree.walk, hw, ok_bind, hws]⟩
    simp only [ExprTree.yield, List.forall_mem_append, List.forall_mem_cons]
    exact ⟨⟨ht, he⟩, hes⟩
  | lessEqual hk =>
    cases h
    obtain ⟨e, d₁, ⟨he, hw⟩, h₁⟩ := hs.expression
    obtain rfl := h₁.emit
    refine ⟨.lessEqual ⟨t, hk⟩ e, ?_, by rw [ExprTree.walk, hw]; rfl⟩
    rw [ExprTree.yield, List.forall_mem_cons]
    exact ⟨ht, he⟩
  | _ => exact hg.elim

lemma Writes.exists (hg : InBody g) (d : Draft) :
    ∃ d', Writes g d d' ∧ d.code.toList <+: d'.code.toList := by
  cases g with
  | token k => exact ⟨d, rfl, List.prefix_rfl⟩
  | emit i => exact ⟨_, rfl, by simp [Draft.emit]⟩
  | command => exact ⟨d, ⟨.empty, by simp [CommandTree.yield], rfl⟩, List.prefix_rfl⟩
  | moreCommands => exact ⟨d, ⟨.noCommands, by simp [CommandTree.yield], rfl⟩, List.prefix_rfl⟩
  | readTarget => exact ⟨d, .inl rfl, List.prefix_rfl⟩
  | factor =>
    have hz : ∀ t ∈ (ExprTree.number (sample .number)).yield, t.Printable := by
      simpa [ExprTree.yield] using printable_zero
    exact ⟨d.emit (.constant 0), ⟨.number (sample .number), hz, rfl⟩, by simp [Draft.emit]⟩
  | moreFactors => exact ⟨d, ⟨.noFactors, by simp [ExprTree.yield], rfl⟩, List.prefix_rfl⟩
  | moreTerms => exact ⟨d, ⟨.noTerms, by simp [ExprTree.yield], rfl⟩, List.prefix_rfl⟩
  | comparison => exact ⟨d, ⟨.noComparison, by simp [ExprTree.yield], rfl⟩, List.prefix_rfl⟩
  | _ => exact hg.elim

lemma WritesAll.exists (hg : ∀ g ∈ gs, InBody g) (d : Draft) :
    ∃ d', WritesAll gs d d' ∧ d.code.toList <+: d'.code.toList := by
  induction gs generalizing d with
  | nil => exact ⟨d, rfl, List.prefix_rfl⟩
  | cons g gs ih =>
    rw [List.forall_mem_cons] at hg
    obtain ⟨d₁, h₁, hp₁⟩ := Writes.exists hg.1 d
    obtain ⟨d₂, h₂, hp₂⟩ := ih hg.2 d₁
    exact ⟨d₂, ⟨d₁, h₁, h₂⟩, hp₁.trans hp₂⟩

/-! ### What a run has written -/

lemma writesAll_of_settle (hg : ∀ g ∈ gs, InBody g) (ht : t.Printable)
    (h : settle t gs d = .ok p) (hw : WritesAll p.goals p.draft d') : WritesAll gs d d' := by
  induction gs, d, h using settle_ok_induction with
  | done d _ hp =>
    subst hp
    exact hw
  | take g gs d _ d₁ new hr hp =>
    subst hp
    obtain ⟨d₂, hn, hw⟩ := hw.split
    exact ⟨d₂, .of_take (List.forall_mem_cons.1 hg).1 ht hr hn, hw⟩
  | pass g gs d _ d₁ _ hr ih =>
    rw [List.forall_mem_cons] at hg
    exact ⟨d₁, .of_pass hg.1 hr, ih hg.2⟩

lemma exists_writesAll_of_error (hg : ∀ g ∈ gs, InBody g) (h : settle t gs d = .error s) :
    ∃ d', WritesAll gs d d' ∧ s.draft.code.toList <+: d'.code.toList := by
  induction gs, d, h using settle_error_induction with
  | stop g gs d _ hr =>
    rw [code_of_meet_error hr]
    exact WritesAll.exists hg d
  | pass g gs d _ d₁ _ hr ih =>
    rw [List.forall_mem_cons] at hg
    obtain ⟨d', hw, hp⟩ := ih hg.2
    exact ⟨d', ⟨d₁, .of_pass hg.1 hr, hw⟩, hp⟩

/-- **A run that stops inside the body** has written the beginning of what the goals write. -/
theorem exists_writesAll_of_run {ts : List Token} (ho : Open p.goals)
    (hg : ∀ g ∈ p.goals, InBody g) (hts : ∀ t ∈ ts, t.Printable) (h : p.run ts = .ok q)
    (ht : q.step t = .error s) :
    ∃ d', WritesAll p.goals p.draft d' ∧ s.draft.code.toList <+: d'.code.toList := by
  induction ts generalizing p with
  | nil =>
    cases h
    exact exists_writesAll_of_error hg ht
  | cons u us ih =>
    rw [List.forall_mem_cons] at hts
    rw [run_cons] at h
    obtain ⟨p₁, h₁, h⟩ := bind_eq_ok.1 h
    have ho₁ := (settle_sound ho h₁).1 hts.1.kind_ne_eof
    obtain ⟨d', hw, hp⟩ := ih ho₁ (settle_inBody ho hg h₁).2.1 hts.2 h
    exact ⟨d', writesAll_of_settle hg hts.1 h₁ hw, hp⟩

/-! ### Programs that begin with what has been written -/

/-- The code is the beginning of the code of some program. -/
def BeginsProgram (code : List Instruction) : Prop :=
  ∃ source full, compile source = .ok full ∧ code <+: full

lemma beginsProgram_start : BeginsProgram [.start] :=
  ⟨"program p;begin end.", [.start, .halt], by decide +kernel, by simp⟩

lemma BeginsProgram.of_prefix {code more : List Instruction} (h : BeginsProgram more)
    (hp : code <+: more) : BeginsProgram code := by
  obtain ⟨source, full, hs, hm⟩ := h
  exact ⟨source, full, hs, hp.trans hm⟩

lemma run_body (C : CommandTree .commands) (f : Terminal .endKw) (dot : Terminal .dot)
    (e : Terminal .eof) (d : Draft) :
    run ⟨Goal.program.drop 6, d⟩ (C.yield ++ [f.1, dot.1, e.1]) =
      C.walk d >>= fun d => .ok ⟨[], d.emit .halt⟩ := by
  have hf : Ahead (CommandCategory.follow .commands) [f.1, dot.1, e.1] := by
    simp [CommandCategory.follow]
  have hd : Ahead [.eof] [e.1] := by simp
  have hc := C.followed [.token .endKw, .token .dot, .emit .halt, .token .eof] d hf
  refine hc.trans ?_
  simp only [run_token, run_emit _ _ _ hd, run_nil]

lemma goals_of_begin {ts : List Token} (hr : Reading ts p) (hb : .beginKw ∉ kinds ts)
    (ht : t.kind = .beginKw) (h : p.step t = .ok q) : q.goals = Goal.program.drop 6 := by
  rw [Parse.step] at h
  cases hr with
  | opening todo hk hg hs =>
    rw [hg] at h
    cases todo with
    | nil =>
      rw [List.map_nil, List.nil_append, settle_declarations, if_neg (by simp [ht]), program_drop,
        settle_token, if_pos ht] at h
      cases h
      rfl
    | cons k todo =>
      have hm : t.kind ≠ k := by
        intro htk
        have hm : t.kind ∈ [Kind.programKw, .identifier, .semicolon] := by
          rw [← hk, htk]
          simp
        rw [ht] at hm
        exact absurd hm (by decide)
      rw [List.map_cons, List.cons_append, settle_token, if_neg hm] at h
      cases h
  | naming closed since goals he hv hb' hc hn hg hs =>
    rw [hg] at h
    obtain ⟨_, hk, -⟩ | ⟨_, hk, -⟩ | ⟨_, hk, -⟩ | ⟨-, -, rfl⟩ := hn.settle_ok h
    · cases ht.symm.trans hk
    · simp [ht] at hk
    · cases ht.symm.trans hk
    · rfl
  | body hbegin => exact absurd hbegin hb

lemma beginsProgram_of_begin {ts : List Token} {n : Nat} (hts : ∀ t ∈ ts, t.Printable)
    (hb : .beginKw ∈ kinds ts) (h : run ⟨Goal.program, initial #[] n⟩ ts = .ok q)
    (ht : q.step t = .error s) : BeginsProgram s.draft.code.toList := by
  obtain ⟨ks, ls, hkl, hks⟩ := List.eq_append_cons_of_mem hb
  obtain ⟨us, _, rfl, rfl, hvs⟩ := List.map_eq_append_iff.1 hkl
  obtain ⟨b, vs, rfl, hbk, rfl⟩ := List.map_eq_cons_iff.1 hvs
  rw [List.forall_mem_append, List.forall_mem_cons] at hts
  rw [run_append] at h
  obtain ⟨p₁, h₁, h⟩ := bind_eq_ok.1 h
  rw [run_cons] at h
  obtain ⟨p₂, h₂, h⟩ := bind_eq_ok.1 h
  have hg : p₂.goals = Goal.program.drop 6 :=
    goals_of_begin (reading_run rfl (fun t ht => (hts.1 t ht).kind_ne_eof) h₁) hks hbk h₂
  obtain ⟨d', hw, hp⟩ := exists_writesAll_of_run
    (by rw [hg]; simp [Open, Goal.program, List.suffix_cons_iff])
    (by rw [hg]; simp [Goal.program, InBody]) hts.2.2 h ht
  rw [hg] at hw
  obtain ⟨C, d₁, ⟨hC, hwalk⟩, hw⟩ := WritesAll.commands hw
  obtain rfl := hw.token.token.emit.token
  -- The body is completed; its header is the one that has been read.
  have hrun : run ⟨Goal.program, initial #[] n⟩ (us ++ b :: C.yield ++
      [(sample .endKw).1, (sample .dot).1] ++ [(default : Terminal .eof).1]) =
      .ok ⟨[], d₁.emit .halt⟩ := by
    have hb' := run_body C (sample .endKw) (sample .dot) default p₂.draft
    rw [hwalk, ok_bind, ← hg] at hb'
    simp only [List.append_assoc, List.cons_append, List.nil_append]
    rw [run_append, h₁, ok_bind, run_cons, h₂, ok_bind]
    exact hb'
  obtain ⟨source, hsource⟩ := exists_source (by
    simp only [List.forall_mem_append, List.forall_mem_cons]
    exact ⟨⟨hts.1, hts.2.1, hC⟩, printable_sample (by decide), printable_sample (by decide),
      by simp⟩) hrun
  exact ⟨source, _, hsource, hp⟩

lemma beginsProgram_of_moreGroups {ts : List Token} {n : Nat} (hts : ∀ t ∈ ts, t.Printable)
    (h : run ⟨Goal.program, initial #[] n⟩ ts = .ok q)
    (hg : q.goals = .moreGroups :: Goal.program.drop 5) :
    BeginsProgram (q.draft.code.push (.allocate q.draft.symbols.size)).toList := by
  set d := q.draft.emit (.allocate q.draft.symbols.size) with hd
  have hb : q.step (sample .beginKw).1 = .ok ⟨Goal.program.drop 6, d⟩ := by
    rw [Parse.step, hg, settle_moreGroups, if_neg (by simp), program_drop, settle_token,
      if_pos (by simp)]
  have hrun : run ⟨Goal.program, initial #[] n⟩ (ts ++ [(sample .beginKw).1, (sample .endKw).1,
      (sample .dot).1] ++ [(default : Terminal .eof).1]) = .ok ⟨[], d.emit .halt⟩ := by
    have hr := run_body (.commands .empty .noCommands) (sample .endKw) (sample .dot) default d
    simp only [List.append_assoc, List.cons_append, List.nil_append]
    rw [run_append, h, ok_bind, run_cons, hb, ok_bind]
    exact hr
  obtain ⟨source, hsource⟩ := exists_source (by
    simp only [List.forall_mem_append, List.forall_mem_cons]
    exact ⟨hts, printable_sample (by decide), printable_sample (by decide),
      printable_sample (by decide), by simp⟩) hrun
  exact ⟨source, _, hsource, by simp [hd, Draft.emit]⟩

/-- **What a parse that stops has written** is the beginning of the code of a program. -/
theorem beginsProgram_of_error {ts : List Token} {n : Nat} (hts : ∀ t ∈ ts, t.Printable)
    (h : run ⟨Goal.program, initial #[] n⟩ ts = .ok q) (ht : q.step t = .error s) :
    BeginsProgram s.draft.code.toList := by
  by_cases hb : .beginKw ∈ kinds ts
  · exact beginsProgram_of_begin hts hb h ht
  · have hts' : ∀ t ∈ ts, t.kind ≠ .eof := fun t ht => (hts t ht).kind_ne_eof
    rcases code_of_error rfl hts' hb h ht with hc | hc | ⟨hg, hc⟩
    · exact beginsProgram_start.of_prefix (by simp [hc, initial, Draft.onto, Draft.record])
    · exact beginsProgram_start.of_prefix (by simp [hc, initial, Draft.onto, Draft.record])
    · rw [hc]
      exact beginsProgram_of_moreGroups hts h hg

end Grammar

end OnePass
