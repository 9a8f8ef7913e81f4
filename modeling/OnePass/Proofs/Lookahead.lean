import Mathlib.Tactic.Lemma
import OnePass.Proofs.Grammar

/-!
One token of lookahead is enough: the token after a derivation shows where it ends, and its first
token shows which rule it begins with. So a program has only one derivation.
-/

namespace OnePass.Grammar

/-- The kinds of the tokens that may come right after a category. -/
def ExprCategory.follow : ExprCategory → List Kind
  | .factor => [.star, .slash, .plus, .minus, .rightParen, .lessEqual, .doKw, .semicolon, .endKw]
  | .moreFactors | .term => [.plus, .minus, .rightParen, .lessEqual, .doKw, .semicolon, .endKw]
  | .moreTerms | .expression => [.rightParen, .lessEqual, .doKw, .semicolon, .endKw]
  | .comparison => [.doKw]

def CommandCategory.follow : CommandCategory → List Kind
  | .command => [.semicolon, .endKw]
  | .moreCommands | .commands => [.endKw]

/-- The tokens go on with one of these kinds. -/
def Ahead (ks : List Kind) : List Token → Prop
  | [] => False
  | t :: _ => t.kind ∈ ks

@[simp] lemma ahead_cons {ks : List Kind} {t : Token} {ts : List Token} :
    Ahead ks (t :: ts) ↔ t.kind ∈ ks := Iff.rfl

lemma Ahead.mono {ks ls : List Kind} {ts : List Token} (h : Ahead ks ts) (hs : ks ⊆ ls) :
    Ahead ls ts := by
  cases ts with
  | nil => exact h
  | cons t ts => exact hs h

lemma ahead_moreFactors (fs : ExprTree .moreFactors) {rest : List Token}
    (h : Ahead (ExprCategory.follow .moreFactors) rest) :
    Ahead (ExprCategory.follow .factor) (fs.yield ++ rest) := by
  cases fs with
  | noFactors => exact h.mono (by simp [ExprCategory.follow])
  | multiply op f fs => simp [ExprTree.yield, ExprCategory.follow]
  | divide op f fs => simp [ExprTree.yield, ExprCategory.follow]

lemma ahead_moreTerms (ts : ExprTree .moreTerms) {rest : List Token}
    (h : Ahead (ExprCategory.follow .moreTerms) rest) :
    Ahead (ExprCategory.follow .term) (ts.yield ++ rest) := by
  cases ts with
  | noTerms => exact h.mono (by simp [ExprCategory.follow])
  | add op t ts => simp [ExprTree.yield, ExprCategory.follow]
  | subtract op t ts => simp [ExprTree.yield, ExprCategory.follow]

lemma ahead_comparison (r : ExprTree .comparison) {rest : List Token}
    (h : Ahead (ExprCategory.follow .comparison) rest) :
    Ahead (ExprCategory.follow .expression) (r.yield ++ rest) := by
  cases r with
  | noComparison => exact h.mono (by simp [ExprCategory.follow])
  | lessEqual op e => simp [ExprTree.yield, ExprCategory.follow]

lemma ahead_moreCommands (cs : CommandTree .moreCommands) {rest : List Token}
    (h : Ahead (CommandCategory.follow .moreCommands) rest) :
    Ahead (CommandCategory.follow .command) (cs.yield ++ rest) := by
  cases cs with
  | noCommands => exact h.mono (by simp [CommandCategory.follow])
  | next s c cs => simp [CommandTree.yield, CommandCategory.follow]

/-! ### Expressions have one derivation -/

lemma terminal_inj {k : Kind} {x y : Terminal k} {us vs : List Token}
    (h : x.1 :: us = y.1 :: vs) : x = y ∧ us = vs := by
  obtain ⟨h₁, h₂⟩ := List.cons.inj h
  exact ⟨Subtype.ext h₁, h₂⟩

lemma kind_eq {j k : Kind} {x : Terminal j} {y : Terminal k} {us vs : List Token}
    (h : x.1 :: us = y.1 :: vs) : j = k := by
  rw [← x.2, ← y.2, (List.cons.inj h).1]

/-- The tokens show which derivation they come from, and where it ends. -/
def ExprTree.Determined {c : ExprCategory} (D : ExprTree c) : Prop :=
  ∀ (E : ExprTree c) {us vs : List Token}, Ahead c.follow us → Ahead c.follow vs →
    D.yield ++ us = E.yield ++ vs → D = E ∧ us = vs

lemma determined_pair {c m : ExprCategory} {D D' : ExprTree c} {E E' : ExprTree m}
    {us vs : List Token} (hD : D.Determined) (hE : E.Determined)
    (ha : ∀ (E : ExprTree m) {ws : List Token}, Ahead m.follow ws →
      Ahead c.follow (E.yield ++ ws))
    (hu : Ahead m.follow us) (hv : Ahead m.follow vs)
    (h : D.yield ++ (E.yield ++ us) = D'.yield ++ (E'.yield ++ vs)) :
    D = D' ∧ E = E' ∧ us = vs := by
  obtain ⟨hd, h₁⟩ := hD D' (ha E hu) (ha E' hv) h
  exact ⟨hd, hE E' hu hv h₁⟩

/-- **An expression has one derivation.** -/
theorem ExprTree.determined {c : ExprCategory} (D : ExprTree c) : D.Determined := by
  induction D with
  | name x =>
    intro E us vs _ _ h
    cases E with
    | name y =>
      obtain ⟨rfl, rfl⟩ := terminal_inj h
      exact ⟨rfl, rfl⟩
    | number v => cases kind_eq h
    | parens l e r => cases kind_eq h
  | number v =>
    intro E us vs _ _ h
    cases E with
    | name x => cases kind_eq h
    | number w =>
      obtain ⟨rfl, rfl⟩ := terminal_inj h
      exact ⟨rfl, rfl⟩
    | parens l e r => cases kind_eq h
  | parens l e r ih =>
    intro E us vs _ _ h
    cases E with
    | name x => cases kind_eq h
    | number v => cases kind_eq h
    | parens l' e' r' =>
      simp only [yield, List.cons_append, List.append_assoc, List.nil_append] at h
      obtain ⟨rfl, h₁⟩ := terminal_inj h
      obtain ⟨rfl, h₂⟩ := ih e' (by simp [ExprCategory.follow])
        (by simp [ExprCategory.follow]) h₁
      obtain ⟨rfl, rfl⟩ := terminal_inj h₂
      exact ⟨rfl, rfl⟩
  | noFactors =>
    intro E us vs hu _ h
    cases E with
    | noFactors => exact ⟨rfl, h⟩
    | multiply op f fs => cases h; simp [ExprCategory.follow] at hu
    | divide op f fs => cases h; simp [ExprCategory.follow] at hu
  | multiply op f fs ihf ihfs =>
    intro E us vs hu hv h
    cases E with
    | noFactors => cases h; simp [ExprCategory.follow] at hv
    | multiply op' f' fs' =>
      simp only [yield, List.cons_append, List.append_assoc] at h
      obtain ⟨rfl, h₁⟩ := terminal_inj h
      obtain ⟨rfl, rfl, rfl⟩ := determined_pair ihf ihfs ahead_moreFactors hu hv h₁
      exact ⟨rfl, rfl⟩
    | divide op' f' fs' => cases kind_eq h
  | divide op f fs ihf ihfs =>
    intro E us vs hu hv h
    cases E with
    | noFactors => cases h; simp [ExprCategory.follow] at hv
    | multiply op' f' fs' => cases kind_eq h
    | divide op' f' fs' =>
      simp only [yield, List.cons_append, List.append_assoc] at h
      obtain ⟨rfl, h₁⟩ := terminal_inj h
      obtain ⟨rfl, rfl, rfl⟩ := determined_pair ihf ihfs ahead_moreFactors hu hv h₁
      exact ⟨rfl, rfl⟩
  | term f fs ihf ihfs =>
    intro E us vs hu hv h
    cases E with
    | term f' fs' =>
      simp only [yield, List.append_assoc] at h
      obtain ⟨rfl, rfl, rfl⟩ := determined_pair ihf ihfs ahead_moreFactors hu hv h
      exact ⟨rfl, rfl⟩
  | noTerms =>
    intro E us vs hu _ h
    cases E with
    | noTerms => exact ⟨rfl, h⟩
    | add op t ts => cases h; simp [ExprCategory.follow] at hu
    | subtract op t ts => cases h; simp [ExprCategory.follow] at hu
  | add op t ts iht ihts =>
    intro E us vs hu hv h
    cases E with
    | noTerms => cases h; simp [ExprCategory.follow] at hv
    | add op' t' ts' =>
      simp only [yield, List.cons_append, List.append_assoc] at h
      obtain ⟨rfl, h₁⟩ := terminal_inj h
      obtain ⟨rfl, rfl, rfl⟩ := determined_pair iht ihts ahead_moreTerms hu hv h₁
      exact ⟨rfl, rfl⟩
    | subtract op' t' ts' => cases kind_eq h
  | subtract op t ts iht ihts =>
    intro E us vs hu hv h
    cases E with
    | noTerms => cases h; simp [ExprCategory.follow] at hv
    | add op' t' ts' => cases kind_eq h
    | subtract op' t' ts' =>
      simp only [yield, List.cons_append, List.append_assoc] at h
      obtain ⟨rfl, h₁⟩ := terminal_inj h
      obtain ⟨rfl, rfl, rfl⟩ := determined_pair iht ihts ahead_moreTerms hu hv h₁
      exact ⟨rfl, rfl⟩
  | expression t ts iht ihts =>
    intro E us vs hu hv h
    cases E with
    | expression t' ts' =>
      simp only [yield, List.append_assoc] at h
      obtain ⟨rfl, rfl, rfl⟩ := determined_pair iht ihts ahead_moreTerms hu hv h
      exact ⟨rfl, rfl⟩
  | noComparison =>
    intro E us vs hu _ h
    cases E with
    | noComparison => exact ⟨rfl, h⟩
    | lessEqual op e => cases h; simp [ExprCategory.follow] at hu
  | lessEqual op e ih =>
    intro E us vs hu hv h
    cases E with
    | noComparison => cases h; simp [ExprCategory.follow] at hv
    | lessEqual op' e' =>
      obtain ⟨rfl, h₁⟩ := terminal_inj h
      obtain ⟨rfl, rfl⟩ := ih e' (hu.mono (by simp [ExprCategory.follow]))
        (hv.mono (by simp [ExprCategory.follow])) h₁
      exact ⟨rfl, rfl⟩

/-! ### Commands have one derivation -/

lemma mem_of_ahead {k : Kind} {x : Terminal k} {ks : List Kind} {ts : List Token}
    (h : Ahead ks (x.1 :: ts)) : k ∈ ks := by
  rw [ahead_cons, x.2] at h
  exact h

def CommandTree.Determined {c : CommandCategory} (C : CommandTree c) : Prop :=
  ∀ (E : CommandTree c) {us vs : List Token}, Ahead c.follow us → Ahead c.follow vs →
    C.yield ++ us = E.yield ++ vs → C = E ∧ us = vs

lemma determined_loop {w w' : Terminal .whileKw} {e e' : ExprTree .expression}
    {r r' : ExprTree .comparison} {k k' : Terminal .doKw} {body body' : CommandTree .command}
    {us vs : List Token} (hb : body.Determined)
    (hu : Ahead (CommandCategory.follow .command) us)
    (hv : Ahead (CommandCategory.follow .command) vs)
    (h : (CommandTree.loop w e r k body).yield ++ us =
      (CommandTree.loop w' e' r' k' body').yield ++ vs) :
    CommandTree.loop w e r k body = .loop w' e' r' k' body' ∧ us = vs := by
  have hk : Ahead (ExprCategory.follow .comparison) (k.1 :: (body.yield ++ us)) := by
    simp [ExprCategory.follow]
  have hk' : Ahead (ExprCategory.follow .comparison) (k'.1 :: (body'.yield ++ vs)) := by
    simp [ExprCategory.follow]
  simp only [CommandTree.yield, List.cons_append, List.append_assoc] at h
  obtain ⟨rfl, h₁⟩ := terminal_inj h
  obtain ⟨rfl, rfl, h₂⟩ := determined_pair e.determined r.determined ahead_comparison hk hk' h₁
  obtain ⟨rfl, h₃⟩ := terminal_inj h₂
  obtain ⟨rfl, rfl⟩ := hb body' hu hv h₃
  exact ⟨rfl, rfl⟩

lemma determined_sequence {c c' : CommandTree .command} {cs cs' : CommandTree .moreCommands}
    {us vs : List Token} (hc : c.Determined) (hcs : cs.Determined)
    (hu : Ahead (CommandCategory.follow .moreCommands) us)
    (hv : Ahead (CommandCategory.follow .moreCommands) vs)
    (h : c.yield ++ (cs.yield ++ us) = c'.yield ++ (cs'.yield ++ vs)) :
    c = c' ∧ cs = cs' ∧ us = vs := by
  obtain ⟨rfl, h₁⟩ := hc c' (ahead_moreCommands cs hu) (ahead_moreCommands cs' hv) h
  exact ⟨rfl, hcs cs' hu hv h₁⟩

/-- **A command has one derivation.** -/
theorem CommandTree.determined {c : CommandCategory} (C : CommandTree c) : C.Determined := by
  induction C with
  | assign x op e =>
    intro E us vs hu hv h
    cases E with
    | assign x' op' e' =>
      obtain ⟨rfl, h₁⟩ := terminal_inj h
      obtain ⟨rfl, h₂⟩ := terminal_inj h₁
      obtain ⟨rfl, rfl⟩ := e.determined e'
        (hu.mono (by simp [CommandCategory.follow, ExprCategory.follow]))
        (hv.mono (by simp [CommandCategory.follow, ExprCategory.follow])) h₂
      exact ⟨rfl, rfl⟩
    | empty => cases h; simpa [CommandCategory.follow] using mem_of_ahead hv
    | _ => cases kind_eq h
  | loop w e r k body ih =>
    intro E us vs hu hv h
    cases E with
    | loop w' e' r' k' body' => exact determined_loop ih hu hv h
    | empty => cases h; simpa [CommandCategory.follow] using mem_of_ahead hv
    | _ => cases kind_eq h
  | read k l x r =>
    intro E us vs _ hv h
    cases E with
    | read k' l' x' r' =>
      obtain ⟨rfl, h₁⟩ := terminal_inj h
      obtain ⟨rfl, h₂⟩ := terminal_inj h₁
      obtain ⟨rfl, h₃⟩ := terminal_inj h₂
      obtain ⟨rfl, rfl⟩ := terminal_inj h₃
      exact ⟨rfl, rfl⟩
    | empty => cases h; simpa [CommandCategory.follow] using mem_of_ahead hv
    | _ => cases kind_eq h
  | write k l e r =>
    intro E us vs _ hv h
    cases E with
    | write k' l' e' r' =>
      simp only [yield, List.cons_append, List.append_assoc, List.nil_append] at h
      obtain ⟨rfl, h₁⟩ := terminal_inj h
      obtain ⟨rfl, h₂⟩ := terminal_inj h₁
      obtain ⟨rfl, h₃⟩ := e.determined e' (by simp [ExprCategory.follow])
        (by simp [ExprCategory.follow]) h₂
      obtain ⟨rfl, rfl⟩ := terminal_inj h₃
      exact ⟨rfl, rfl⟩
    | empty => cases h; simpa [CommandCategory.follow] using mem_of_ahead hv
    | _ => cases kind_eq h
  | compound b cs e ih =>
    intro E us vs _ hv h
    cases E with
    | compound b' cs' e' =>
      simp only [yield, List.cons_append, List.append_assoc, List.nil_append] at h
      obtain ⟨rfl, h₁⟩ := terminal_inj h
      obtain ⟨rfl, h₂⟩ := ih cs' (by simp [CommandCategory.follow])
        (by simp [CommandCategory.follow]) h₁
      obtain ⟨rfl, rfl⟩ := terminal_inj h₂
      exact ⟨rfl, rfl⟩
    | empty => cases h; simpa [CommandCategory.follow] using mem_of_ahead hv
    | _ => cases kind_eq h
  | empty =>
    intro E us vs hu _ h
    cases E with
    | empty => exact ⟨rfl, h⟩
    | _ => cases h; simpa [CommandCategory.follow] using mem_of_ahead hu
  | noCommands =>
    intro E us vs hu _ h
    cases E with
    | noCommands => exact ⟨rfl, h⟩
    | next s c cs => cases h; simpa [CommandCategory.follow] using mem_of_ahead hu
  | next s c cs ihc ihcs =>
    intro E us vs hu hv h
    cases E with
    | noCommands => cases h; simpa [CommandCategory.follow] using mem_of_ahead hv
    | next s' c' cs' =>
      simp only [yield, List.cons_append, List.append_assoc] at h
      obtain ⟨rfl, h₁⟩ := terminal_inj h
      obtain ⟨rfl, rfl, rfl⟩ := determined_sequence ihc ihcs hu hv h₁
      exact ⟨rfl, rfl⟩
  | commands c cs ihc ihcs =>
    intro E us vs hu hv h
    cases E with
    | commands c' cs' =>
      simp only [yield, List.append_assoc] at h
      obtain ⟨rfl, rfl, rfl⟩ := determined_sequence ihc ihcs hu hv h
      exact ⟨rfl, rfl⟩

/-! ### Programs have one derivation -/

lemma determined_moreNames {ms ns : List (Terminal .comma × Terminal .identifier)}
    {c c' : Terminal .colon} {us vs : List Token}
    (h : moreNamesYield ms ++ c.1 :: us = moreNamesYield ns ++ c'.1 :: vs) :
    ms = ns ∧ c = c' ∧ us = vs := by
  induction ms generalizing ns with
  | nil =>
    cases ns with
    | nil => exact ⟨rfl, terminal_inj h⟩
    | cons q ns => cases kind_eq h
  | cons p ms ih =>
    cases ns with
    | nil => cases kind_eq h
    | cons q ns =>
      obtain ⟨hc, h₁⟩ := terminal_inj h
      obtain ⟨hx, h₂⟩ := terminal_inj h₁
      obtain ⟨rfl, hr⟩ := ih h₂
      exact ⟨by rw [Prod.ext hc hx], hr⟩

lemma determined_groups {gs hs : List Group} {b b' : Terminal .beginKw} {us vs : List Token}
    (h : gs.flatMap Group.yield ++ b.1 :: us = hs.flatMap Group.yield ++ b'.1 :: vs) :
    gs = hs ∧ b = b' ∧ us = vs := by
  induction gs generalizing hs with
  | nil =>
    cases hs with
    | nil => exact ⟨rfl, terminal_inj h⟩
    | cons g hs => cases kind_eq h
  | cons g gs ih =>
    cases hs with
    | nil => cases kind_eq h
    | cons g' hs =>
      obtain ⟨x, ms, c, k, s⟩ := g
      obtain ⟨x', ms', c', k', s'⟩ := g'
      simp only [List.flatMap_cons, Group.yield, List.cons_append, List.append_assoc,
        List.nil_append] at h
      obtain ⟨rfl, h₁⟩ := terminal_inj h
      obtain ⟨rfl, rfl, h₂⟩ := determined_moreNames h₁
      obtain ⟨rfl, h₃⟩ := terminal_inj h₂
      obtain ⟨rfl, h₄⟩ := terminal_inj h₃
      obtain ⟨rfl, hr⟩ := ih h₄
      exact ⟨rfl, hr⟩

lemma determined_declarations {ds es : Option Declarations} {b b' : Terminal .beginKw}
    {us vs : List Token} (h : ds.elim [] Declarations.yield ++ b.1 :: us =
      es.elim [] Declarations.yield ++ b'.1 :: vs) : ds = es ∧ b = b' ∧ us = vs := by
  cases ds with
  | none =>
    cases es with
    | none => exact ⟨rfl, terminal_inj h⟩
    | some es => cases kind_eq h
  | some ds =>
    cases es with
    | none => cases kind_eq h
    | some es =>
      obtain ⟨x, g, gs⟩ := ds
      obtain ⟨x', g', gs'⟩ := es
      obtain ⟨rfl, h₁⟩ := terminal_inj h
      obtain ⟨hg, hr⟩ := determined_groups h₁
      cases hg
      exact ⟨rfl, hr⟩

/-- **A program has one derivation.** -/
theorem Program.eq_of_yield_eq {P Q : Program} (h : P.yield = Q.yield) : P = Q := by
  obtain ⟨p, x, s, ds, b, C, f, dot⟩ := P
  obtain ⟨p', x', s', ds', b', C', f', dot'⟩ := Q
  simp only [Program.yield, Program.header, List.cons_append, List.append_assoc] at h
  obtain ⟨rfl, h₁⟩ := terminal_inj h
  obtain ⟨rfl, h₂⟩ := terminal_inj h₁
  obtain ⟨rfl, h₃⟩ := terminal_inj h₂
  obtain ⟨rfl, rfl, h₄⟩ := determined_declarations h₃
  obtain ⟨rfl, h₅⟩ := C.determined C' (by simp [CommandCategory.follow])
    (by simp [CommandCategory.follow]) h₄
  obtain ⟨rfl, h₆⟩ := terminal_inj h₅
  obtain ⟨rfl, -⟩ := terminal_inj h₆
  rfl

end OnePass.Grammar
