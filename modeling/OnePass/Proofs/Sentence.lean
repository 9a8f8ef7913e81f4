import Mathlib.Data.List.Infix
import OnePass.Proofs.Grammar

/-!
Sentences and their beginnings. The grammar looks at the kinds of tokens only, so a derivation
can be relabelled with any tokens of the same kinds.
-/

namespace OnePass.Grammar

abbrev kinds (ts : List Token) : List Kind := ts.map Token.kind

/-- Some program has tokens of these kinds. -/
def Sentence (ks : List Kind) : Prop := ∃ P : Program, kinds P.yield = ks

/-- Tokens of these kinds begin some program, or are all of it with the end of input. -/
def Viable (ks : List Kind) : Prop := ∃ s, Sentence s ∧ ks <+: s ++ [.eof]

lemma Viable.of_prefix {ks ls : List Kind} (h : Viable ls) (hp : ks <+: ls) : Viable ks := by
  obtain ⟨s, hs, hl⟩ := h
  exact ⟨s, hs, hp.trans hl⟩

/-! ### Relabelling -/

lemma kinds_eq_cons {k : Kind} {x : Terminal k} {ts us : List Token}
    (h : kinds ts = kinds (x.1 :: us)) :
    ∃ (y : Terminal k) (vs : List Token), ts = y.1 :: vs ∧ kinds vs = kinds us := by
  obtain ⟨t, vs, rfl, ht, hv⟩ := List.map_eq_cons_iff.1 h
  exact ⟨⟨t, ht.trans x.2⟩, vs, rfl, hv⟩

lemma kinds_eq_append {ts us vs : List Token} (h : kinds ts = kinds (us ++ vs)) :
    ∃ us' vs', ts = us' ++ vs' ∧ kinds us' = kinds us ∧ kinds vs' = kinds vs := by
  rw [kinds, kinds, List.map_append] at h
  exact List.map_eq_append_iff.1 h

lemma kinds_eq_nil {ts : List Token} (h : kinds ts = kinds []) : ts = [] := by
  simpa using h

/-- Tokens of the same kinds have a derivation too. -/
def ExprTree.Relabelled {c : ExprCategory} (D : ExprTree c) : Prop :=
  ∀ ts : List Token, kinds ts = kinds D.yield → ∃ E : ExprTree c, E.yield = ts

lemma relabelled_pair {c m : ExprCategory} {D : ExprTree c} {E : ExprTree m}
    (hD : D.Relabelled) (hE : E.Relabelled) {ts : List Token}
    (h : kinds ts = kinds (D.yield ++ E.yield)) :
    ∃ (D' : ExprTree c) (E' : ExprTree m), D'.yield ++ E'.yield = ts := by
  obtain ⟨us, vs, rfl, hu, hv⟩ := kinds_eq_append h
  obtain ⟨D', rfl⟩ := hD us hu
  obtain ⟨E', rfl⟩ := hE vs hv
  exact ⟨D', E', rfl⟩

theorem ExprTree.relabelled {c : ExprCategory} (D : ExprTree c) : D.Relabelled := by
  induction D with
  | name x =>
    intro ts h
    obtain ⟨y, vs, rfl, hv⟩ := kinds_eq_cons h
    exact ⟨.name y, by rw [kinds_eq_nil hv]; rfl⟩
  | number v =>
    intro ts h
    obtain ⟨w, vs, rfl, hv⟩ := kinds_eq_cons h
    exact ⟨.number w, by rw [kinds_eq_nil hv]; rfl⟩
  | parens l e r ih =>
    intro ts h
    obtain ⟨l', _, rfl, h₁⟩ := kinds_eq_cons h
    obtain ⟨us, vs, rfl, hu, hv⟩ := kinds_eq_append h₁
    obtain ⟨e', rfl⟩ := ih us hu
    obtain ⟨r', _, rfl, hr⟩ := kinds_eq_cons hv
    exact ⟨.parens l' e' r', by rw [kinds_eq_nil hr]; rfl⟩
  | noFactors => exact fun ts h => ⟨.noFactors, (kinds_eq_nil h).symm⟩
  | noTerms => exact fun ts h => ⟨.noTerms, (kinds_eq_nil h).symm⟩
  | noComparison => exact fun ts h => ⟨.noComparison, (kinds_eq_nil h).symm⟩
  | multiply op f fs ihf ihfs =>
    intro ts h
    obtain ⟨op', _, rfl, h₁⟩ := kinds_eq_cons h
    obtain ⟨f', fs', rfl⟩ := relabelled_pair ihf ihfs h₁
    exact ⟨.multiply op' f' fs', rfl⟩
  | divide op f fs ihf ihfs =>
    intro ts h
    obtain ⟨op', _, rfl, h₁⟩ := kinds_eq_cons h
    obtain ⟨f', fs', rfl⟩ := relabelled_pair ihf ihfs h₁
    exact ⟨.divide op' f' fs', rfl⟩
  | term f fs ihf ihfs =>
    intro ts h
    obtain ⟨f', fs', rfl⟩ := relabelled_pair ihf ihfs h
    exact ⟨.term f' fs', rfl⟩
  | add op t us iht ihus =>
    intro ts h
    obtain ⟨op', _, rfl, h₁⟩ := kinds_eq_cons h
    obtain ⟨t', us', rfl⟩ := relabelled_pair iht ihus h₁
    exact ⟨.add op' t' us', rfl⟩
  | subtract op t us iht ihus =>
    intro ts h
    obtain ⟨op', _, rfl, h₁⟩ := kinds_eq_cons h
    obtain ⟨t', us', rfl⟩ := relabelled_pair iht ihus h₁
    exact ⟨.subtract op' t' us', rfl⟩
  | expression t us iht ihus =>
    intro ts h
    obtain ⟨t', us', rfl⟩ := relabelled_pair iht ihus h
    exact ⟨.expression t' us', rfl⟩
  | lessEqual op e ih =>
    intro ts h
    obtain ⟨op', _, rfl, h₁⟩ := kinds_eq_cons h
    obtain ⟨e', rfl⟩ := ih _ h₁
    exact ⟨.lessEqual op' e', rfl⟩

def CommandTree.Relabelled {c : CommandCategory} (C : CommandTree c) : Prop :=
  ∀ ts : List Token, kinds ts = kinds C.yield → ∃ E : CommandTree c, E.yield = ts

lemma relabelled_sequence {c : CommandTree .command} {cs : CommandTree .moreCommands}
    (hc : c.Relabelled) (hcs : cs.Relabelled) {ts : List Token}
    (h : kinds ts = kinds (c.yield ++ cs.yield)) :
    ∃ (c' : CommandTree .command) (cs' : CommandTree .moreCommands),
      c'.yield ++ cs'.yield = ts := by
  obtain ⟨us, vs, rfl, hu, hv⟩ := kinds_eq_append h
  obtain ⟨c', rfl⟩ := hc us hu
  obtain ⟨cs', rfl⟩ := hcs vs hv
  exact ⟨c', cs', rfl⟩

theorem CommandTree.relabelled {c : CommandCategory} (C : CommandTree c) : C.Relabelled := by
  induction C with
  | assign x op e =>
    intro ts h
    obtain ⟨x', _, rfl, h₁⟩ := kinds_eq_cons h
    obtain ⟨op', _, rfl, h₂⟩ := kinds_eq_cons h₁
    obtain ⟨e', rfl⟩ := e.relabelled _ h₂
    exact ⟨.assign x' op' e', rfl⟩
  | loop w e r k body ih =>
    intro ts h
    obtain ⟨us, vs, rfl, hu, hv⟩ := kinds_eq_append h
    obtain ⟨w', _, rfl, h₁⟩ := kinds_eq_cons hu
    obtain ⟨e', r', rfl⟩ := relabelled_pair e.relabelled r.relabelled h₁
    obtain ⟨k', _, rfl, h₂⟩ := kinds_eq_cons hv
    obtain ⟨body', rfl⟩ := ih _ h₂
    exact ⟨.loop w' e' r' k' body', rfl⟩
  | read k l x r =>
    intro ts h
    obtain ⟨k', _, rfl, h₁⟩ := kinds_eq_cons h
    obtain ⟨l', _, rfl, h₂⟩ := kinds_eq_cons h₁
    obtain ⟨x', _, rfl, h₃⟩ := kinds_eq_cons h₂
    obtain ⟨r', _, rfl, h₄⟩ := kinds_eq_cons h₃
    exact ⟨.read k' l' x' r', by rw [kinds_eq_nil h₄]; rfl⟩
  | write k l e r =>
    intro ts h
    obtain ⟨us, vs, rfl, hu, hv⟩ := kinds_eq_append h
    obtain ⟨k', _, rfl, h₁⟩ := kinds_eq_cons hu
    obtain ⟨l', _, rfl, h₂⟩ := kinds_eq_cons h₁
    obtain ⟨e', rfl⟩ := e.relabelled _ h₂
    obtain ⟨r', _, rfl, h₃⟩ := kinds_eq_cons hv
    exact ⟨.write k' l' e' r', by rw [kinds_eq_nil h₃]; rfl⟩
  | compound b cs e ih =>
    intro ts h
    obtain ⟨us, vs, rfl, hu, hv⟩ := kinds_eq_append h
    obtain ⟨b', _, rfl, h₁⟩ := kinds_eq_cons hu
    obtain ⟨cs', rfl⟩ := ih _ h₁
    obtain ⟨e', _, rfl, h₂⟩ := kinds_eq_cons hv
    exact ⟨.compound b' cs' e', by rw [kinds_eq_nil h₂]; rfl⟩
  | empty => exact fun ts h => ⟨.empty, (kinds_eq_nil h).symm⟩
  | noCommands => exact fun ts h => ⟨.noCommands, (kinds_eq_nil h).symm⟩
  | next s c cs ihc ihcs =>
    intro ts h
    obtain ⟨s', _, rfl, h₁⟩ := kinds_eq_cons h
    obtain ⟨c', cs', rfl⟩ := relabelled_sequence ihc ihcs h₁
    exact ⟨.next s' c' cs', rfl⟩
  | commands c cs ihc ihcs =>
    intro ts h
    obtain ⟨c', cs', rfl⟩ := relabelled_sequence ihc ihcs h
    exact ⟨.commands c' cs', rfl⟩

lemma relabelled_moreNames {ms : List (Terminal .comma × Terminal .identifier)}
    {ts : List Token} (h : kinds ts = kinds (moreNamesYield ms)) :
    ∃ ns, moreNamesYield ns = ts := by
  induction ms generalizing ts with
  | nil => exact ⟨[], (kinds_eq_nil h).symm⟩
  | cons p ms ih =>
    obtain ⟨c, _, rfl, h₁⟩ := kinds_eq_cons h
    obtain ⟨x, _, rfl, h₂⟩ := kinds_eq_cons h₁
    obtain ⟨ns, rfl⟩ := ih h₂
    exact ⟨(c, x) :: ns, rfl⟩

lemma relabelled_groups {gs : List Group} {ts : List Token}
    (h : kinds ts = kinds (gs.flatMap Group.yield)) :
    ∃ hs : List Group, hs.length = gs.length ∧ hs.flatMap Group.yield = ts := by
  induction gs generalizing ts with
  | nil => exact ⟨[], rfl, (kinds_eq_nil h).symm⟩
  | cons g gs ih =>
    rw [List.flatMap_cons] at h
    obtain ⟨us, vs, rfl, hu, hv⟩ := kinds_eq_append h
    obtain ⟨us₁, us₂, rfl, hu₁, hu₂⟩ := kinds_eq_append hu
    obtain ⟨x, _, rfl, h₁⟩ := kinds_eq_cons hu₁
    obtain ⟨ns, rfl⟩ := relabelled_moreNames h₁
    obtain ⟨c, _, rfl, h₂⟩ := kinds_eq_cons hu₂
    obtain ⟨k, _, rfl, h₃⟩ := kinds_eq_cons h₂
    obtain ⟨s, _, rfl, h₄⟩ := kinds_eq_cons h₃
    obtain ⟨hs, hl, rfl⟩ := ih hv
    exact ⟨⟨x, ns, c, k, s⟩ :: hs, by simp [hl], by simp [Group.yield, kinds_eq_nil h₄]⟩

lemma relabelled_declarations {ds : Option Declarations} {ts : List Token}
    (h : kinds ts = kinds (ds.elim [] Declarations.yield)) :
    ∃ es : Option Declarations, es.elim [] Declarations.yield = ts := by
  cases ds with
  | none => exact ⟨none, (kinds_eq_nil h).symm⟩
  | some ds =>
    obtain ⟨v, _, rfl, h₁⟩ := kinds_eq_cons h
    obtain ⟨hs, hl, rfl⟩ := relabelled_groups h₁
    obtain ⟨g, gs, rfl⟩ := List.exists_cons_of_length_eq_add_one hl
    exact ⟨some ⟨v, g, gs⟩, rfl⟩

theorem Program.relabelled (P : Program) {ts : List Token} (h : kinds ts = kinds P.yield) :
    ∃ Q : Program, Q.yield = ts := by
  obtain ⟨us, vs, rfl, hu, hv⟩ := kinds_eq_append h
  obtain ⟨us₁, us₂, rfl, hu₁, hu₂⟩ := kinds_eq_append hu
  obtain ⟨p, _, rfl, h₁⟩ := kinds_eq_cons hu₁
  obtain ⟨x, _, rfl, h₂⟩ := kinds_eq_cons h₁
  obtain ⟨s, _, rfl, h₃⟩ := kinds_eq_cons h₂
  obtain ⟨ds, rfl⟩ := relabelled_declarations h₃
  obtain ⟨b, _, rfl, h₄⟩ := kinds_eq_cons hu₂
  obtain ⟨C, rfl⟩ := P.body.relabelled _ h₄
  obtain ⟨f, _, rfl, h₅⟩ := kinds_eq_cons hv
  obtain ⟨dot, _, rfl, h₆⟩ := kinds_eq_cons h₅
  exact ⟨⟨p, x, s, ds, b, C, f, dot⟩, by simp [Program.yield, Program.header, kinds_eq_nil h₆]⟩

/-- **Beginnings of programs**: whether tokens can be completed depends on their kinds only. -/
theorem viable_iff {ts : List Token} :
    Viable (kinds ts) ↔ ∃ (P : Program) (e : Terminal .eof) (us : List Token),
      P.yield ++ [e.1] = ts ++ us := by
  constructor
  · rintro ⟨_, ⟨P, rfl⟩, ls, hl⟩
    have he : kinds (P.yield ++ [(default : Terminal .eof).1]) = kinds ts ++ ls := by
      rw [hl, kinds, List.map_append]; rfl
    obtain ⟨ts', us, hP, ht, -⟩ := List.map_eq_append_iff.1 he
    have hk : kinds (ts ++ us) = kinds (P.yield ++ [(default : Terminal .eof).1]) := by
      rw [hP, kinds, kinds, List.map_append, List.map_append, ht]
    obtain ⟨ys, zs, hyz, hy, hz⟩ := kinds_eq_append hk
    obtain ⟨e, _, rfl, h₁⟩ := kinds_eq_cons hz
    obtain ⟨Q, rfl⟩ := P.relabelled hy
    exact ⟨Q, e, us, by rw [hyz, kinds_eq_nil h₁]⟩
  · rintro ⟨P, e, us, h⟩
    refine ⟨kinds P.yield, ⟨P, rfl⟩, kinds us, ?_⟩
    have hk := congrArg kinds h
    rw [kinds, kinds, List.map_append, List.map_append, List.map_singleton, e.2] at hk
    exact hk.symm

end OnePass.Grammar
