import OnePass.Proofs.Stages

/-!
Faults of the grammar: which token is blamed, and what is named as missing.
-/

namespace OnePass.Grammar

open Parse

variable {ts us vs : List Token} {t : Token} {d : Draft} {q : Parse} {s : Stop} {e : Terminal .eof}

/-! ### Walks stop for other reasons -/

/-- Stopping, if at all, for a name or a literal and not for the kind of a token. -/
def Grammatical {α : Type} (x : Except Stop α) : Prop :=
  ∀ s, x = .error s → s.fault.stage ≠ .syntactic

lemma grammatical_ok {α : Type} (a : α) : Grammatical (.ok a) := by
  intro s h
  cases h

lemma Grammatical.bind {α β : Type} {x : Except Stop α} {f : α → Except Stop β} (hx : Grammatical x)
    (hf : ∀ a, Grammatical (f a)) : Grammatical (x >>= f) := by
  intro s h
  obtain h | ⟨a, -, h⟩ := bind_eq_error.1 h
  · exact hx s h
  · exact hf a s h

lemma grammatical_addressOf (d : Draft) (t : Token) : Grammatical (d.addressOf t) := by
  intro s h
  simp [addressOf_stage h]

lemma grammatical_valueOf (d : Draft) (t : Token) : Grammatical (d.valueOf t) := by
  intro s h
  simp [valueOf_stage h]

lemma ExprTree.grammatical_walk {c : ExprCategory} (D : ExprTree c) (d : Draft) :
    Grammatical (D.walk d) := by
  induction D generalizing d with
  | name x => exact (grammatical_addressOf d x.1).bind fun a => grammatical_ok _
  | number v => exact (grammatical_valueOf d v.1).bind fun a => grammatical_ok _
  | parens l e r ih => exact ih d
  | noFactors => exact grammatical_ok d
  | noTerms => exact grammatical_ok d
  | noComparison => exact grammatical_ok d
  | multiply op f fs ihf ihfs => exact (ihf d).bind fun d => ihfs _
  | divide op f fs ihf ihfs => exact (ihf d).bind fun d => ihfs _
  | term f fs ihf ihfs => exact (ihf d).bind fun d => ihfs _
  | add op t ts iht ihts => exact (iht d).bind fun d => ihts _
  | subtract op t ts iht ihts => exact (iht d).bind fun d => ihts _
  | expression t ts iht ihts => exact (iht d).bind fun d => ihts _
  | lessEqual op e ih => exact (ih d).bind fun d => grammatical_ok _

lemma CommandTree.grammatical_walk {c : CommandCategory} (C : CommandTree c) (d : Draft) :
    Grammatical (C.walk d) := by
  induction C generalizing d with
  | assign x op e =>
    exact (grammatical_addressOf d x.1).bind fun a =>
      (e.grammatical_walk d).bind fun d => grammatical_ok _
  | loop w e r k body ih =>
    exact (e.grammatical_walk _).bind fun d => (r.grammatical_walk d).bind fun d =>
      (ih _).bind fun d => grammatical_ok _
  | read k l x r => exact (grammatical_addressOf d x.1).bind fun a => grammatical_ok _
  | write k l e r => exact (e.grammatical_walk d).bind fun d => grammatical_ok _
  | compound b cs e ih => exact ih d
  | empty => exact grammatical_ok d
  | noCommands => exact grammatical_ok d
  | next s c cs ihc ihcs => exact (ihc d).bind fun d => ihcs d
  | commands c cs ihc ihcs => exact (ihc d).bind fun d => ihcs d

lemma Program.grammatical_walk (P : Program) (d : Draft) : Grammatical (P.walk d) := by
  have hd : ∀ d, Grammatical (P.declarations.elim (.ok d) (·.walk d)) := by
    intro d
    cases P.declarations with
    | none => exact grammatical_ok d
    | some ds =>
      rw [Option.elim_some, ds.walk_eq]
      have hn : Grammatical (d.declareAll ds.names) := fun s h => by simp [declareAll_stage h]
      exact hn.bind fun d => grammatical_ok _
  exact (hd _).bind fun d => (P.body.grammatical_walk d).bind fun d => grammatical_ok _

/-! ### Runs and beginnings of programs -/

lemma viable_of_meets (h : MeetsAll Goal.program (ts ++ us)) : Viable (kinds ts) := by
  obtain ⟨P, e, hP⟩ := h.program
  exact viable_iff.2 ⟨P, e, us, hP.symm⟩

lemma viable_of_run (hts : ∀ t ∈ ts, t.kind ≠ .eof) (h : run ⟨Goal.program, d⟩ ts = .ok q) :
    Viable (kinds ts) := by
  obtain ⟨us, hu⟩ := MeetsAll.exists q.goals
  exact viable_of_meets ((run_sound open_program hts h).2 us hu)

lemma grammatical_run (h : Viable (kinds ts)) : Grammatical (run ⟨Goal.program, d⟩ ts) := by
  intro s hs
  obtain ⟨P, e, us, hP⟩ := viable_iff.1 h
  have hr : run ⟨Goal.program, d⟩ (P.yield ++ [e.1]) = .error s := by
    rw [hP, run_append, hs, error_bind]
  rw [P.run_yield] at hr
  obtain hw | ⟨d', -, hd⟩ := bind_eq_error.1 hr
  · exact P.grammatical_walk d s hw
  · cases hd

lemma viable_of_step (hts : ∀ t ∈ ts, t.kind ≠ .eof) (h : run ⟨Goal.program, d⟩ ts = .ok q)
    (ht : q.step t = .error s) (hs : s.fault.stage ≠ .syntactic) : Viable (kinds (ts ++ [t])) := by
  obtain ⟨us, hu⟩ := settle_fault ht hs
  have hm := (run_sound open_program hts h).2 _ hu
  rw [← List.singleton_append, ← List.append_assoc] at hm
  exact viable_of_meets hm

/-! ### The token that is blamed -/

/-- The token at `k` is the first that no program goes on with. -/
structure Stray (ts : List Token) (k : Nat) : Prop where
  viable : Viable (kinds (ts.take k))
  stuck : ¬ Viable (kinds (ts.take (k + 1)))

lemma Stray.unique {j k : Nat} (hj : Stray ts j) (hk : Stray ts k) : j = k := by
  have hle : ∀ {i j : Nat}, Stray ts i → Stray ts j → j ≤ i := by
    intro i j hi hj
    by_contra hlt
    refine hi.stuck (hj.viable.of_prefix ?_)
    exact List.IsPrefix.map _ (List.take_prefix_take_left (by omega))
  have h₁ := hle hj hk
  have h₂ := hle hk hj
  omega

/-- The fault `f` is about the token at `k`, and any token that it asks for could have come
there. -/
def Reports (f : Fault) (ts : List Token) (k : Nat) : Prop :=
  ∃ (t : Token) (w : Wanted), ts[k]? = some t ∧ f.position = t.position ∧
    f.description = s!"expected {w.describe}, found {t.describe}" ∧
    ∀ x ∈ w.kinds, Viable (kinds (ts.take k) ++ [x])

lemma stray_of_run (hts : ∀ t ∈ ts, t.kind ≠ .eof)
    (h : run ⟨Goal.program, d⟩ (ts ++ [e.1]) = .error s) (hs : s.fault.stage = .syntactic) :
    ∃ k, Stray (ts ++ [e.1]) k ∧ Reports s.fault (ts ++ [e.1]) k := by
  obtain ⟨us, t, vs, q, he, hq, ht⟩ := run_eq_error h
  have hus : ∀ t ∈ us, t.kind ≠ .eof := fun t ht => hts t ((prefix_of_append_eq he).subset ht)
  obtain ⟨f, d'⟩ := s
  cases f with
  | unexpected w t' =>
    obtain ⟨rfl, hx⟩ := settle_unexpected ht
    have hk : (ts ++ [e.1]).take us.length = us := by rw [he, List.take_left]
    have hk' : (ts ++ [e.1]).take (us.length + 1) = us ++ [t'] := by
      rw [he, List.take_length_add_append]; rfl
    refine ⟨us.length, ⟨?_, ?_⟩, t', w, ?_, rfl, rfl, ?_⟩
    -- What was read before the token can be completed.
    · rw [hk]
      exact viable_of_run hus hq
    -- With the token it cannot: the parser accepts every beginning of a sentence.
    · rw [hk']
      intro hv
      have hr : run ⟨Goal.program, d⟩ (us ++ [t']) = .error ⟨.unexpected w t', d'⟩ := by
        rw [run_append, hq, ok_bind, run_cons, ht, error_bind]
      exact grammatical_run hv _ hr rfl
    · rw [he]
      simp
    -- Each kind that was wanted can stand there.
    · intro x hw
      obtain ⟨ws, hm⟩ := hx ⟨x, "", .start⟩ hw
      have hp := (run_sound open_program hus hq).2 _ hm
      rw [← List.singleton_append, ← List.append_assoc] at hp
      rw [hk]
      simpa using viable_of_meets hp
  | _ => cases hs

/-- **Syntax errors** blame the first token that cannot be continued, of which there is one; and
without a faulty name, whatever is not a program has such an error. -/
theorem compile_syntax_error (source : String) (ts : List Token)
    (ht : tokenize source = .ok ts) :
    (∀ f, compile source = .error f → f.stage = .syntactic →
      ∃ k, Stray ts k ∧ Reports f ts k) ∧
    ((¬ ∃ s, Sentence s ∧ kinds ts = s ++ [.eof]) →
      (∀ f, compile source = .error f → f.stage ≠ .semantic) →
      ∃ f k, compile source = .error f ∧ f.stage = .syntactic ∧ Stray ts k ∧ Reports f ts k) ∧
    (∀ j k, Stray ts j → Stray ts k → j = k) := by
  obtain ⟨us, e, rfl, hu, hr⟩ := tokenize_ok ht
  have hb : ∀ f, compile source = .error f → f.stage = .syntactic →
      ∃ k, Stray (us ++ [e.1]) k ∧ Reports f (us ++ [e.1]) k := by
    intro f hf hs
    obtain ⟨s, h, rfl⟩ := (compile_eq_error ht).1 hf
    exact stray_of_run hu h hs
  refine ⟨hb, fun hn hsem => ?_, fun j k => Stray.unique⟩
  -- A run that succeeds would have read a sentence.
  cases h : run ⟨Goal.program, initial #[] (us ++ [e.1]).length⟩ (us ++ [e.1]) with
  | ok q =>
    obtain ⟨P, rfl⟩ := exists_program_of_run hu h
    exact absurd ⟨_, ⟨P, rfl⟩, by simp⟩ hn
  | error s =>
    have hf : compile source = .error s.fault := (compile_eq_error ht).2 ⟨s, h, rfl⟩
    have hs : s.fault.stage = .syntactic := by
      have h₁ := stage_ne_lexical (hr.append_eof e) h
      have h₂ := hsem _ hf
      cases hk : s.fault.stage <;> simp_all
    obtain ⟨k, hk⟩ := hb _ hf hs
    exact ⟨s.fault, k, hf, hs, hk⟩

/-- A text in which an operand is missing. -/
def missingOperand : String := "program p; begin write(1 + ) end."

def missingOperandTokens : List Token :=
  [⟨.programKw, "program", ⟨1, 1⟩⟩, ⟨.identifier, "p", ⟨1, 9⟩⟩, ⟨.semicolon, ";", ⟨1, 10⟩⟩,
    ⟨.beginKw, "begin", ⟨1, 12⟩⟩, ⟨.writeKw, "write", ⟨1, 18⟩⟩, ⟨.leftParen, "(", ⟨1, 23⟩⟩,
    ⟨.number, "1", ⟨1, 24⟩⟩, ⟨.plus, "+", ⟨1, 26⟩⟩, ⟨.rightParen, ")", ⟨1, 28⟩⟩,
    ⟨.endKw, "end", ⟨1, 30⟩⟩, ⟨.dot, ".", ⟨1, 33⟩⟩, ⟨.eof, "", ⟨1, 34⟩⟩]

theorem compile_syntax_error_missingOperand :
    tokenize missingOperand = .ok missingOperandTokens ∧
      ∃ f k, compile missingOperand = .error f ∧
        f = .unexpected .expression ⟨.rightParen, ")", ⟨1, 28⟩⟩ ∧
        Stray missingOperandTokens k ∧ Reports f missingOperandTokens k := by
  have ht : tokenize missingOperand = .ok missingOperandTokens := by decide +kernel
  have hf : compile missingOperand =
      .error (.unexpected .expression ⟨.rightParen, ")", ⟨1, 28⟩⟩) := by decide +kernel
  obtain ⟨k, hk⟩ := (compile_syntax_error missingOperand missingOperandTokens ht).1 _ hf rfl
  exact ⟨ht, _, k, hf, rfl, hk⟩

end OnePass.Grammar
