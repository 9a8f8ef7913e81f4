import Mathlib.Data.List.Infix
import OnePass.Proofs.Grammar
import OnePass.Proofs.Productions

/-!
What a stack of goals still asks of the tokens to come.

`Meets g ts` says that the tokens `ts` are what the goal `g` stands for, and `MeetsAll` the same
of a stack. When the parser takes a token, whatever meets the new stack meets the old one with the
token in front; so every successful run is the beginning of a derivation.
-/

namespace OnePass

/-- The kinds of the tokens that a program could have gone on with. -/
def Wanted.kinds : Wanted → List Kind
  | kind k => [k]
  | type => [.integerKw]
  | expression => [.identifier, .number, .leftParen]

namespace Grammar

def Meets : Goal → List Token → Prop
  | .token k, ts => ∃ x : Terminal k, ts = [x.1]
  | .emit _, ts => ts = []
  | .declarations, ts => ∃ ds : Option Declarations, ts = ds.elim [] Declarations.yield
  | .name _, ts => ∃ (g : Group) (gs : List Group), ts = g.yield ++ gs.flatMap Group.yield
  | .moreNames _, ts =>
    ∃ (more : List (Terminal .comma × Terminal .identifier)) (c : Terminal .colon)
      (k : Terminal .integerKw) (s : Terminal .semicolon) (gs : List Group),
      ts = moreNamesYield more ++ c.1 :: k.1 :: s.1 :: gs.flatMap Group.yield
  | .type, ts => ∃ k : Terminal .integerKw, ts = [k.1]
  | .closeGroup _, ts => ∃ (s : Terminal .semicolon) (gs : List Group),
      ts = s.1 :: gs.flatMap Group.yield
  | .moreGroups, ts => ∃ gs : List Group, ts = gs.flatMap Group.yield
  | .command, ts => ∃ C : CommandTree .command, ts = C.yield
  | .moreCommands, ts => ∃ C : CommandTree .moreCommands, ts = C.yield
  | .readTarget, ts => ∃ (x : Terminal .identifier) (r : Terminal .rightParen), ts = [x.1, r.1]
  | .factor, ts => ∃ D : ExprTree .factor, ts = D.yield
  | .moreFactors, ts => ∃ D : ExprTree .moreFactors, ts = D.yield
  | .moreTerms, ts => ∃ D : ExprTree .moreTerms, ts = D.yield
  | .comparison, ts => ∃ D : ExprTree .comparison, ts = D.yield

def MeetsAll : List Goal → List Token → Prop
  | [], ts => ts = []
  | g :: gs, ts => ∃ us vs, ts = us ++ vs ∧ Meets g us ∧ MeetsAll gs vs

lemma Meets.cons {g : Goal} {gs : List Goal} {us vs : List Token} (h : Meets g us)
    (hs : MeetsAll gs vs) : MeetsAll (g :: gs) (us ++ vs) := ⟨us, vs, rfl, h, hs⟩

lemma MeetsAll.split {gs hs : List Goal} {ts : List Token} (h : MeetsAll (gs ++ hs) ts) :
    ∃ us vs, ts = us ++ vs ∧ MeetsAll gs us ∧ MeetsAll hs vs := by
  induction gs generalizing ts with
  | nil => exact ⟨[], ts, rfl, rfl, h⟩
  | cons g gs ih =>
    obtain ⟨us, vs, rfl, hm, hg⟩ := h
    obtain ⟨vs₁, vs₂, rfl, h₁, h₂⟩ := ih hg
    exact ⟨us ++ vs₁, vs₂, by rw [List.append_assoc], hm.cons h₁, h₂⟩

/-! ### Taking stacks apart -/

lemma MeetsAll.token {k : Kind} {gs : List Goal} {ts : List Token}
    (h : MeetsAll (.token k :: gs) ts) :
    ∃ (x : Terminal k) (us : List Token), ts = x.1 :: us ∧ MeetsAll gs us := by
  obtain ⟨_, us, rfl, ⟨x, rfl⟩, hs⟩ := h
  exact ⟨x, us, rfl, hs⟩

lemma MeetsAll.emit {i : Instruction} {gs : List Goal} {ts : List Token}
    (h : MeetsAll (.emit i :: gs) ts) : MeetsAll gs ts := by
  obtain ⟨_, us, rfl, rfl, hs⟩ := h
  exact hs

lemma MeetsAll.term {gs : List Goal} {ts : List Token} (h : MeetsAll (Goal.term ++ gs) ts) :
    ∃ (e : ExprTree .term) (us : List Token), ts = e.yield ++ us ∧ MeetsAll gs us := by
  obtain ⟨_, _, rfl, ⟨f, rfl⟩, _, us, rfl, ⟨fs, rfl⟩, hs⟩ := h
  exact ⟨.term f fs, us, by simp [ExprTree.yield], hs⟩

lemma MeetsAll.expression {gs : List Goal} {ts : List Token}
    (h : MeetsAll (Goal.expression ++ gs) ts) :
    ∃ (e : ExprTree .expression) (us : List Token), ts = e.yield ++ us ∧ MeetsAll gs us := by
  have ht : MeetsAll (Goal.term ++ .moreTerms :: gs) ts := h
  obtain ⟨t, _, rfl, _, us, rfl, ⟨more, rfl⟩, hs⟩ := ht.term
  exact ⟨.expression t more, us, by simp [ExprTree.yield], hs⟩

lemma MeetsAll.commands {gs : List Goal} {ts : List Token}
    (h : MeetsAll (Goal.commands ++ gs) ts) :
    ∃ (C : CommandTree .commands) (us : List Token), ts = C.yield ++ us ∧ MeetsAll gs us := by
  obtain ⟨_, _, rfl, ⟨c, rfl⟩, _, us, rfl, ⟨cs, rfl⟩, hs⟩ := h
  exact ⟨.commands c cs, us, by simp [CommandTree.yield], hs⟩

lemma MeetsAll.program {ts : List Token} (h : MeetsAll Goal.program ts) :
    ∃ (P : Program) (e : Terminal .eof), ts = P.yield ++ [e.1] := by
  obtain ⟨p, _, rfl, h₁⟩ := h.token
  obtain ⟨x, _, rfl, h₂⟩ := h₁.token
  obtain ⟨s, _, rfl, h₃⟩ := h₂.token
  obtain ⟨_, _, rfl, ⟨ds, rfl⟩, h₄⟩ := h₃.emit
  obtain ⟨b, _, rfl, h₅⟩ := h₄.token
  obtain ⟨C, _, rfl, h₆⟩ := MeetsAll.commands h₅
  obtain ⟨f, _, rfl, h₇⟩ := h₆.token
  obtain ⟨dot, _, rfl, h₈⟩ := h₇.token
  obtain ⟨e, _, rfl, rfl⟩ := h₈.emit.token
  exact ⟨⟨p, x, s, ds, b, C, f, dot⟩, e, by simp [Program.yield, Program.header]⟩

/-! ### What one goal says of a token -/

variable {g : Goal} {d d' : Draft} {t : Token} {us : List Token} {s : Stop}

lemma Meets.of_pass (h : g.meet d t = .ok (.pass d')) : Meets g [] := by
  have ho := Goal.otherwise_of_pass h
  cases g with
  | emit i => rfl
  | declarations => exact ⟨none, rfl⟩
  | moreGroups => exact ⟨[], rfl⟩
  | command => exact ⟨.empty, rfl⟩
  | moreCommands => exact ⟨.noCommands, rfl⟩
  | moreFactors => exact ⟨.noFactors, rfl⟩
  | moreTerms => exact ⟨.noTerms, rfl⟩
  | comparison => exact ⟨.noComparison, rfl⟩
  | _ => cases ho

/-- What meets the goals that a row leaves behind meets the goal of the row after the token: each
row is a rule of the grammar. -/
lemma Meets.of_takes {m : Goal.Take} {a : Nat} (h : Goal.Takes t.kind g m)
    (hs : MeetsAll (m.goals d t a) us) : Meets g (t :: us) := by
  cases h with
  | token hk =>
    obtain rfl := hs
    exact ⟨⟨t, hk⟩, rfl⟩
  | var hk =>
    obtain ⟨_, _, rfl, ⟨g, gs, rfl⟩, rfl⟩ := hs
    exact ⟨some ⟨⟨t, hk⟩, g, gs⟩, by simp [Declarations.yield, Declarations.groups]⟩
  | name hk =>
    obtain ⟨_, _, rfl, ⟨more, c, k, s, gs, rfl⟩, rfl⟩ := hs
    exact ⟨⟨⟨t, hk⟩, more, c, k, s⟩, gs, by simp [Group.yield]⟩
  | comma hk =>
    obtain ⟨_, _, rfl, ⟨⟨x, more, c, k, s⟩, gs, rfl⟩, rfl⟩ := hs
    exact ⟨(⟨t, hk⟩, x) :: more, c, k, s, gs, by simp [Group.yield, moreNamesYield]⟩
  | colon hk =>
    obtain ⟨_, _, rfl, ⟨k, rfl⟩, _, _, rfl, ⟨s, gs, rfl⟩, rfl⟩ := hs
    exact ⟨[], ⟨t, hk⟩, k, s, gs, by simp [moreNamesYield]⟩
  | integer hk =>
    obtain rfl := hs
    exact ⟨⟨t, hk⟩, rfl⟩
  | endGroup hk =>
    obtain ⟨_, _, rfl, ⟨gs, rfl⟩, rfl⟩ := hs
    exact ⟨⟨t, hk⟩, gs, by simp⟩
  | nextGroup hk =>
    obtain ⟨_, _, rfl, ⟨more, c, k, s, gs, rfl⟩, rfl⟩ := hs
    exact ⟨⟨⟨t, hk⟩, more, c, k, s⟩ :: gs, by simp [Group.yield]⟩
  | assign hk =>
    obtain ⟨op, _, rfl, h₁⟩ := MeetsAll.token hs
    obtain ⟨e, _, rfl, h₂⟩ := MeetsAll.expression h₁
    obtain rfl := h₂.emit
    exact ⟨.assign ⟨t, hk⟩ op e, by simp [CommandTree.yield]⟩
  | loop hk =>
    obtain ⟨e, _, rfl, _, _, rfl, ⟨r, rfl⟩, h₁⟩ := MeetsAll.expression hs
    obtain ⟨k, _, rfl, _, _, rfl, ⟨body, rfl⟩, h₂⟩ := h₁.emit.token
    obtain rfl := h₂.emit.emit
    exact ⟨.loop ⟨t, hk⟩ e r k body, by simp [CommandTree.yield]⟩
  | read hk =>
    obtain ⟨l, _, rfl, _, _, rfl, ⟨x, r, rfl⟩, rfl⟩ := MeetsAll.token hs
    exact ⟨.read ⟨t, hk⟩ l x r, by simp [CommandTree.yield]⟩
  | write hk =>
    obtain ⟨l, _, rfl, h₁⟩ := MeetsAll.token hs
    obtain ⟨e, _, rfl, h₂⟩ := MeetsAll.expression h₁
    obtain ⟨r, _, rfl, h₃⟩ := h₂.token
    obtain rfl := h₃.emit
    exact ⟨.write ⟨t, hk⟩ l e r, by simp [CommandTree.yield]⟩
  | compound hk =>
    obtain ⟨cs, _, rfl, h₁⟩ := MeetsAll.commands hs
    obtain ⟨e, _, rfl, rfl⟩ := h₁.token
    exact ⟨.compound ⟨t, hk⟩ cs e, by simp [CommandTree.yield]⟩
  | nextCommand hk =>
    obtain ⟨_, _, rfl, ⟨c, rfl⟩, _, _, rfl, ⟨cs, rfl⟩, rfl⟩ := hs
    exact ⟨.next ⟨t, hk⟩ c cs, by simp [CommandTree.yield]⟩
  | target hk =>
    obtain ⟨r, _, rfl, h₁⟩ := MeetsAll.token hs
    obtain rfl := h₁.emit.emit
    exact ⟨⟨t, hk⟩, r, rfl⟩
  | load hk =>
    obtain rfl := hs
    exact ⟨.name ⟨t, hk⟩, rfl⟩
  | constant hk =>
    obtain rfl := hs
    exact ⟨.number ⟨t, hk⟩, rfl⟩
  | parens hk =>
    obtain ⟨e, _, rfl, h₁⟩ := MeetsAll.expression hs
    obtain ⟨r, _, rfl, rfl⟩ := h₁.token
    exact ⟨.parens ⟨t, hk⟩ e r, by simp [ExprTree.yield]⟩
  | multiply hk =>
    obtain ⟨_, _, rfl, ⟨f, rfl⟩, h₁⟩ := hs
    obtain ⟨_, _, rfl, ⟨fs, rfl⟩, rfl⟩ := MeetsAll.emit h₁
    exact ⟨.multiply ⟨t, hk⟩ f fs, by simp [ExprTree.yield]⟩
  | divide hk =>
    obtain ⟨_, _, rfl, ⟨f, rfl⟩, h₁⟩ := hs
    obtain ⟨_, _, rfl, ⟨fs, rfl⟩, rfl⟩ := MeetsAll.emit h₁
    exact ⟨.divide ⟨t, hk⟩ f fs, by simp [ExprTree.yield]⟩
  | add hk =>
    obtain ⟨e, _, rfl, h₁⟩ := MeetsAll.term hs
    obtain ⟨_, _, rfl, ⟨es, rfl⟩, rfl⟩ := h₁.emit
    exact ⟨.add ⟨t, hk⟩ e es, by simp [ExprTree.yield]⟩
  | subtract hk =>
    obtain ⟨e, _, rfl, h₁⟩ := MeetsAll.term hs
    obtain ⟨_, _, rfl, ⟨es, rfl⟩, rfl⟩ := h₁.emit
    exact ⟨.subtract ⟨t, hk⟩ e es, by simp [ExprTree.yield]⟩
  | lessEqual hk =>
    obtain ⟨e, _, rfl, h₁⟩ := MeetsAll.expression hs
    obtain rfl := h₁.emit
    exact ⟨.lessEqual ⟨t, hk⟩ e, by simp [ExprTree.yield]⟩

lemma Meets.of_take {new : List Goal} (h : g.meet d t = .ok (.take d' new))
    (hs : MeetsAll new us) : Meets g (t :: us) := by
  obtain ⟨m, hm, h⟩ := Goal.takes_of_meet h
  obtain ⟨a, rfl⟩ := Goal.Take.goals_of_on h
  exact of_takes hm hs

lemma Meets.exists (g : Goal) : ∃ ts, Meets g ts := by
  cases g with
  | token k => exact ⟨_, default, rfl⟩
  | emit i => exact ⟨_, rfl⟩
  | declarations => exact ⟨_, none, rfl⟩
  | name names => exact ⟨_, default, [], rfl⟩
  | moreNames names => exact ⟨_, [], default, default, default, [], rfl⟩
  | type => exact ⟨_, default, rfl⟩
  | closeGroup names => exact ⟨_, default, [], rfl⟩
  | moreGroups => exact ⟨_, [], rfl⟩
  | command => exact ⟨_, .empty, rfl⟩
  | moreCommands => exact ⟨_, .noCommands, rfl⟩
  | readTarget => exact ⟨_, default, default, rfl⟩
  | factor => exact ⟨_, default, rfl⟩
  | moreFactors => exact ⟨_, .noFactors, rfl⟩
  | moreTerms => exact ⟨_, .noTerms, rfl⟩
  | comparison => exact ⟨_, .noComparison, rfl⟩

lemma MeetsAll.exists (gs : List Goal) : ∃ ts, MeetsAll gs ts := by
  induction gs with
  | nil => exact ⟨[], rfl⟩
  | cons g gs ih =>
    obtain ⟨us, hu⟩ := Meets.exists g
    obtain ⟨vs, hv⟩ := ih
    exact ⟨us ++ vs, hu.cons hv⟩

lemma Meets.exists_of_takes {m : Goal.Take} (h : Goal.Takes t.kind g m) :
    ∃ us, Meets g (t :: us) := by
  obtain ⟨us, hu⟩ := MeetsAll.exists (m.goals (.onto #[]) t 0)
  exact ⟨us, of_takes h hu⟩

/-- **Why a goal stops**: it wants another kind of token, the name or the literal that it has read
is at fault, or one of the names that it declares. -/
lemma meet_eq_error (h : g.meet d t = .error s) :
    (∃ w, s = ⟨.unexpected w t, d⟩) ∨ s = ⟨.undeclared t, d⟩ ∨
      (t.kind = .number ∧ d.valueOf t = .error s) ∨ ∃ group, d.declareAll group = .error s := by
  obtain ⟨w, -, rfl⟩ | ⟨m, hm, h⟩ := Goal.takes_of_error h
  · exact .inl ⟨w, rfl⟩
  · obtain rfl | ⟨rfl, hv⟩ | ⟨group, -, hd⟩ := Goal.Take.on_eq_error h
    · exact .inr (.inl rfl)
    · cases hm with
      | constant hk => exact .inr (.inr (.inl ⟨hk, hv⟩))
    · exact .inr (.inr (.inr ⟨group, hd⟩))

lemma Meets.of_fault (h : g.meet d t = .error s) (hs : s.fault.stage ≠ .syntactic) :
    ∃ us, Meets g (t :: us) := by
  obtain ⟨w, -, rfl⟩ | ⟨m, hm, -⟩ := Goal.takes_of_error h
  · exact absurd rfl hs
  · exact exists_of_takes hm

lemma takes_of_wanted {w : Wanted} {k : Kind} (h : g.otherwise = .want w) (hk : k ∈ w.kinds) :
    ∃ m, Goal.Takes k g m := by
  cases g <;> cases h <;> simp only [Wanted.kinds, List.mem_cons, List.not_mem_nil, or_false] at hk
  case token => exact ⟨_, .token hk⟩
  case name => exact ⟨_, .name hk⟩
  case moreNames => exact ⟨_, .colon hk⟩
  case type => exact ⟨_, .integer hk⟩
  case closeGroup => exact ⟨_, .endGroup hk⟩
  case readTarget => exact ⟨_, .target hk⟩
  case factor =>
    rcases hk with hk | hk | hk
    · exact ⟨_, .load hk⟩
    · exact ⟨_, .constant hk⟩
    · exact ⟨_, .parens hk⟩

lemma Meets.of_unexpected {t' : Token} {w : Wanted}
    (h : g.meet d t = .error ⟨.unexpected w t', d'⟩) :
    t' = t ∧ ∀ x : Token, x.kind ∈ w.kinds → ∃ us, Meets g (x :: us) := by
  obtain ⟨w, hw, hs⟩ | ⟨m, -, h⟩ := Goal.takes_of_error h
  · cases hs
    refine ⟨rfl, fun x hx => ?_⟩
    obtain ⟨m, hm⟩ := takes_of_wanted hw hx
    exact exists_of_takes hm
  · -- No fault of a token that is taken speaks of its kind.
    obtain hs | ⟨-, hv⟩ | ⟨group, -, hd⟩ := Goal.Take.on_eq_error h
    · cases hs
    · cases (Draft.valueOf_eq_error hv).2
    · obtain ⟨_, _, _, _, hf, -⟩ := Draft.declareAll_eq_error hd
      cases hf

/-! ### What a step and a run say of the tokens -/

open Parse

/-- The end of the input is still to come. -/
def Open (gs : List Goal) : Prop := [Goal.token .eof] <:+ gs

lemma open_program : Open Goal.program := by simp [Open, Goal.program, List.suffix_cons_iff]

lemma settle_cons (t : Token) (g : Goal) (gs : List Goal) (d : Draft) :
    settle t (g :: gs) d = g.meet d t >>= fun
      | .pass d => settle t gs d
      | .take d new => .ok ⟨new ++ gs, d⟩ := by
  rw [settle]
  cases g.meet d t with
  | error e => rfl
  | ok r => cases r <;> rfl

/-- Induction on the goals that pass the token on, up to the one that takes it. -/
theorem settle_ok_induction {t : Token} {p : Parse}
    {motive : (gs : List Goal) → (d : Draft) → settle t gs d = .ok p → Prop}
    (done : ∀ d h, p = ⟨[], d⟩ → motive [] d h)
    (take : ∀ g gs d h d' new, g.meet d t = .ok (.take d' new) → p = ⟨new ++ gs, d'⟩ →
      motive (g :: gs) d h)
    (pass : ∀ g gs d h d' h', g.meet d t = .ok (.pass d') → motive gs d' h' →
      motive (g :: gs) d h)
    (gs : List Goal) (d : Draft) (h : settle t gs d = .ok p) : motive gs d h := by
  induction gs generalizing d with
  | nil => exact done d h (Except.ok.inj h).symm
  | cons g gs ih =>
    have hs := h
    rw [settle_cons] at hs
    obtain ⟨r, hr, hs⟩ := bind_eq_ok.1 hs
    cases r with
    | pass d' => exact pass g gs d h d' hs hr (ih d' hs)
    | take d' new => exact take g gs d h d' new hr (Except.ok.inj hs).symm

/-- Induction on the goals that pass the token on, up to the one that stops at it. -/
theorem settle_error_induction {t : Token} {s : Stop}
    {motive : (gs : List Goal) → (d : Draft) → settle t gs d = .error s → Prop}
    (stop : ∀ g gs d h, g.meet d t = .error s → motive (g :: gs) d h)
    (pass : ∀ g gs d h d' h', g.meet d t = .ok (.pass d') → motive gs d' h' →
      motive (g :: gs) d h)
    (gs : List Goal) (d : Draft) (h : settle t gs d = .error s) : motive gs d h := by
  induction gs generalizing d with
  | nil => cases h
  | cons g gs ih =>
    have hs := h
    rw [settle_cons] at hs
    obtain hr | ⟨r, hr, hs⟩ := bind_eq_error.1 hs
    · exact stop g gs d h hr
    · cases r with
      | pass d' => exact pass g gs d h d' hs hr (ih d' hs)
      | take d' new => cases hs

lemma Open.of_pass {g : Goal} {gs : List Goal} {d d' : Draft} {t : Token} (ho : Open (g :: gs))
    (h : g.meet d t = .ok (.pass d')) : Open gs := by
  rcases List.suffix_cons_iff.1 ho with hg | hg
  · cases hg
    obtain ⟨x, hx⟩ := Meets.of_pass h
    cases hx
  · exact hg

lemma settle_sound {t : Token} {gs : List Goal} {d : Draft} {p : Parse} (ho : Open gs)
    (h : settle t gs d = .ok p) :
    (t.kind ≠ .eof → Open p.goals) ∧
      ∀ us, MeetsAll p.goals us → MeetsAll gs (t :: us) := by
  induction gs, d, h using settle_ok_induction with
  | done d _ hp => simp [Open] at ho
  | take g gs d _ d' new hr hp =>
    subst hp
    refine ⟨fun ht => ?_, fun us hu => ?_⟩
    · rcases List.suffix_cons_iff.1 ho with hg | hg
      · cases hg
        obtain ⟨m, hm, -⟩ := Goal.takes_of_meet hr
        cases hm with
        | token hk => exact absurd hk ht
      · exact hg.trans (List.suffix_append new gs)
    · obtain ⟨us, vs, rfl, hn, hg⟩ := MeetsAll.split hu
      exact (Meets.of_take hr hn).cons hg
  | pass g gs d _ d' _ hr ih =>
    obtain ⟨h₁, h₂⟩ := ih (ho.of_pass hr)
    exact ⟨h₁, fun us hu => (Meets.of_pass hr).cons (h₂ us hu)⟩

lemma settle_unexpected {t t' : Token} {gs : List Goal} {d d' : Draft} {w : Wanted}
    (h : settle t gs d = .error ⟨.unexpected w t', d'⟩) :
    t' = t ∧ ∀ x : Token, x.kind ∈ w.kinds → ∃ us, MeetsAll gs (x :: us) := by
  induction gs, d, h using settle_error_induction with
  | stop g gs d _ hr =>
    obtain ⟨ht, hx⟩ := Meets.of_unexpected hr
    refine ⟨ht, fun x hk => ?_⟩
    obtain ⟨us, hu⟩ := hx x hk
    obtain ⟨vs, hv⟩ := MeetsAll.exists gs
    exact ⟨us ++ vs, hu.cons hv⟩
  | pass g gs d _ d' _ hr ih =>
    obtain ⟨ht, hx⟩ := ih
    refine ⟨ht, fun x hk => ?_⟩
    obtain ⟨us, hu⟩ := hx x hk
    exact ⟨us, (Meets.of_pass hr).cons hu⟩

lemma settle_fault {t : Token} {gs : List Goal} {d : Draft} {s : Stop}
    (h : settle t gs d = .error s) (hs : s.fault.stage ≠ .syntactic) :
    ∃ us, MeetsAll gs (t :: us) := by
  induction gs, d, h using settle_error_induction with
  | stop g gs d _ hr =>
    obtain ⟨us, hu⟩ := Meets.of_fault hr hs
    obtain ⟨vs, hv⟩ := MeetsAll.exists gs
    exact ⟨us ++ vs, hu.cons hv⟩
  | pass g gs d _ d' _ hr ih =>
    obtain ⟨us, hu⟩ := ih
    exact ⟨us, (Meets.of_pass hr).cons hu⟩

/-- **Every successful run is the beginning of a derivation.** -/
theorem run_sound {p q : Parse} {ts : List Token} (ho : Open p.goals)
    (hts : ∀ t ∈ ts, t.kind ≠ .eof) (h : p.run ts = .ok q) :
    Open q.goals ∧ ∀ us, MeetsAll q.goals us → MeetsAll p.goals (ts ++ us) := by
  induction ts generalizing p with
  | nil =>
    cases h
    exact ⟨ho, fun us hu => hu⟩
  | cons t ts ih =>
    rw [run_cons] at h
    obtain ⟨p₁, h₁, h⟩ := bind_eq_ok.1 h
    obtain ⟨ho₁, hm₁⟩ := settle_sound ho h₁
    obtain ⟨ho₂, hm₂⟩ := ih (ho₁ (hts t (by simp))) (fun x hx => hts x (by simp [hx])) h
    exact ⟨ho₂, fun us hu => hm₁ _ (hm₂ us hu)⟩

lemma run_eq_error {p : Parse} {ts : List Token} {s : Stop} (h : p.run ts = .error s) :
    ∃ us t vs q, ts = us ++ t :: vs ∧ p.run us = .ok q ∧ q.step t = .error s := by
  induction ts generalizing p with
  | nil => cases h
  | cons t ts ih =>
    rw [run_cons] at h
    obtain h | ⟨p₁, h₁, h⟩ := bind_eq_error.1 h
    · exact ⟨[], t, ts, p, rfl, rfl, h⟩
    · obtain ⟨us, x, vs, q, rfl, hu, hx⟩ := ih h
      exact ⟨t :: us, x, vs, q, rfl, by rw [run_cons, h₁]; exact hu, hx⟩

end Grammar

end OnePass
