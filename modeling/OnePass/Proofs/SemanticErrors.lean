import OnePass.Proofs.SyntaxErrors

/-!
Faulty names: when they are reported, and which of several.

A name that is declared again is reported when its group is closed, a name that is used without
having been declared when it is read. So the name that is reported is the first faulty one, unless
the text before it, or the group around it, is no beginning of a program.
-/

namespace OnePass.Grammar

open Parse

/-- The name `x` at `i` is declared again, in a group that a later `;` closes. -/
structure Redeclared (ts : List Token) (i : Nat) (x : Token) : Prop where
  found : ts[i]? = some x
  kind : x.kind = .identifier
  after_var : .varKw ∈ kinds (ts.take i)
  before_begin : .beginKw ∉ kinds (ts.take i)
  declared_before : x.lexeme ∈ declaredNames (ts.take i)
  closed : ∃ (j : Nat) (s : Token), i < j ∧ ts[j]? = some s ∧ s.kind = .semicolon ∧
    .semicolon ∉ kinds ((ts.take j).drop (i + 1)) ∧ Viable (kinds (ts.take (j + 1)))

/-- The name `x` at `i` is used in the body and not declared. -/
structure Undeclared (ts : List Token) (i : Nat) (x : Token) : Prop where
  found : ts[i]? = some x
  kind : x.kind = .identifier
  after_begin : .beginKw ∈ kinds (ts.take i)
  not_declared : x.lexeme ∉ declaredNames ts
  viable : Viable (kinds (ts.take (i + 1)))

def Violation (ts : List Token) (i : Nat) (x : Token) : Prop :=
  Redeclared ts i x ∨ Undeclared ts i x

variable {ts us vs : List Token} {t x : Token} {i n : Nat} {d : Draft} {q : Parse} {s : Stop}
  {e : Terminal .eof}

/-! ### Faulty names are not read -/

lemma exists_take_eq (h : ts[i]? = some x) (hn : i < n) :
    ∃ us, ts.take n = ts.take i ++ x :: us := by
  obtain ⟨us, hu⟩ : ts.take (i + 1) <+: ts.take n := List.take_prefix_take_left hn
  rw [List.take_add_one, h, Option.toList_some, List.append_assoc] at hu
  exact ⟨us, hu.symm⟩

lemma declaredNames_take (hb : .beginKw ∈ kinds (ts.take n)) :
    declaredNames (ts.take n) = declaredNames ts := by
  have hd : declaredNames (ts.take n ++ ts.drop n) = declaredNames (ts.take n) :=
    declaredNames_append_of_begin hb
  rw [← hd, List.take_append_drop]

lemma Redeclared.not_nodup (h : Redeclared ts i x) (hn : i < n) :
    ¬ (declaredNames (ts.take n)).Nodup := by
  obtain ⟨us, hu⟩ := exists_take_eq h.found hn
  have hb : beforeBegin (x :: us) = x :: beforeBegin us := by simp [beforeBegin, h.kind]
  have hi : identifiers (x :: beforeBegin us) = x :: identifiers (beforeBegin us) := by
    simp [identifiers, h.kind]
  rw [hu, declaredNames, declared_append_of_var h.after_var h.before_begin, hb, hi,
    List.map_append, ← declaredNames, List.map_cons]
  intro hd
  exact (List.nodup_append.1 hd).2.2 _ h.declared_before _ (by simp) rfl

lemma Undeclared.not_known (h : Undeclared ts i x) (hn : i < n) :
    ¬ Known (declaredNames (ts.take n)) (fromBegin (ts.take n)) := by
  obtain ⟨us, hu⟩ := exists_take_eq h.found hn
  have hb : .beginKw ∈ kinds (ts.take n) := by
    rw [hu, kinds, List.map_append]
    exact List.mem_append_left _ h.after_begin
  rw [declaredNames_take hb, hu, fromBegin_append_of_mem h.after_begin]
  intro hk
  exact h.not_declared (hk x (by simp) h.kind)

/-! ### Faulty names are reported -/

lemma kind_ne_eof_of_take (hts : ∀ t ∈ ts, t.kind ≠ .eof) (h : (ts ++ [e.1])[i]? = some x)
    (hx : x.kind ≠ .eof) : ∀ t ∈ (ts ++ [e.1]).take (i + 1), t.kind ≠ .eof := by
  have hi : i < ts.length := by
    by_contra hi
    rw [List.getElem?_append_right (by omega)] at h
    obtain rfl : e.1 = x := List.mem_singleton.1 (List.mem_of_getElem? h) ▸ rfl
    exact hx e.2
  rw [List.take_append_of_le_length hi]
  exact fun t ht => hts t (List.mem_of_mem_take ht)

lemma exists_semantic_of_viable (hr : InRange ts) (hv : Viable (kinds (ts.take n)))
    (hn : ∀ q, run ⟨Goal.program, d⟩ (ts.take n) ≠ .ok q) :
    ∃ s, run ⟨Goal.program, d⟩ ts = .error s ∧ s.fault.stage = .semantic := by
  cases h : run ⟨Goal.program, d⟩ (ts.take n) with
  | ok q => exact absurd h (hn q)
  | error s =>
    -- Neither of the other two stages can have failed.
    have h₁ := grammatical_run hv s h
    have h₂ := stage_ne_lexical (fun t ht => hr t (List.mem_of_mem_take ht)) h
    refine ⟨s, ?_, by cases hs : s.fault.stage <;> simp_all⟩
    rw [← List.take_append_drop n ts, run_append, h, error_bind]

lemma Violation.exists_semantic (h : Violation (ts ++ [e.1]) i x) (hd : d.symbols.names = [])
    (hts : ∀ t ∈ ts, t.kind ≠ .eof) (hr : InRange (ts ++ [e.1])) :
    ∃ s, run ⟨Goal.program, d⟩ (ts ++ [e.1]) = .error s ∧ s.fault.stage = .semantic := by
  rcases h with h | h
  · obtain ⟨j, s, hij, hj, hs, -, hv⟩ := h.closed
    refine exists_semantic_of_viable hr hv fun q hq => ?_
    have hrd := reading_run hd (kind_ne_eof_of_take hts hj (by simp [hs])) hq
    have hj' : (ts ++ [e.1]).take (j + 1) = (ts ++ [e.1]).take j ++ [s] := by
      rw [List.take_add_one, hj, Option.toList_some]
    rw [hj'] at hrd
    have hn := hrd.of_semicolon hs
    rw [← hj'] at hn
    exact h.not_nodup (by omega) (hn ▸ q.draft.symbols.nodup)
  · refine exists_semantic_of_viable hr h.viable fun q hq => ?_
    have hrd := reading_run hd (kind_ne_eof_of_take hts h.found (by simp [h.kind])) hq
    obtain ⟨us, hu⟩ := exists_take_eq h.found (Nat.lt_succ_self i)
    have hb : .beginKw ∈ kinds ((ts ++ [e.1]).take (i + 1)) := by
      rw [hu, kinds, List.map_append]
      exact List.mem_append_left _ h.after_begin
    exact h.not_known (Nat.lt_succ_self i) (hrd.of_begin hb).2

/-! ### The name that is reported -/

/-- The fault `f` is about the name `x` at `i`. -/
def Names (f : Fault) (ts : List Token) (i : Nat) (x : Token) : Prop :=
  f.position = x.position ∧
    (Redeclared ts i x ∧ f.description = s!"variable '{x.lexeme}' already declared" ∨
      Undeclared ts i x ∧ f.description = s!"variable '{x.lexeme}' not declared")

lemma Redeclaration.redeclared {pre mid : List Token} (hx : Redeclaration pre x mid t)
    (hv : Viable (kinds (pre ++ x :: mid ++ [t]))) :
    Redeclared (pre ++ x :: mid ++ t :: vs) pre.length x := by
  have hp : (pre ++ x :: mid ++ t :: vs).take pre.length = pre := by simp
  have hl : (pre ++ x :: mid).length = pre.length + (mid.length + 1) := by simp
  refine ⟨by simp, hx.kind, by rw [hp]; exact hx.var, by rw [hp]; exact hx.no_begin,
    by rw [hp]; exact hx.mem, (pre ++ x :: mid).length, t, by omega, ?_, hx.closed, ?_, ?_⟩
  · rw [List.getElem?_append_right (Nat.le_refl _)]
    simp
  · rw [List.take_left, List.drop_append, List.drop_of_length_le (by omega)]
    simpa using hx.within
  · rwa [List.take_length_add_append]

lemma Misuse.undeclared (hx : Misuse us t) (hv : Viable (kinds (us ++ [t]))) :
    Undeclared (us ++ t :: vs) us.length t := by
  have hu : (us ++ t :: vs).take us.length = us := by simp
  refine ⟨by simp, hx.kind, by rw [hu]; exact hx.begin, ?_, ?_⟩
  · rw [declaredNames_append_of_begin hx.begin]
    exact hx.not_mem
  · rwa [List.take_length_add_append]

lemma names_of_run (hd : d.symbols.names = []) (hts : ∀ t ∈ ts, t.kind ≠ .eof)
    (h : run ⟨Goal.program, d⟩ (ts ++ [e.1]) = .error s) (hs : s.fault.stage = .semantic) :
    ∃ i x, Names s.fault (ts ++ [e.1]) i x ∧ ∀ j y, Violation (ts ++ [e.1]) j y → i ≤ j := by
  obtain ⟨us, t, vs, q, he, hq, ht⟩ := run_eq_error h
  have hus : ∀ t ∈ us, t.kind ≠ .eof := fun t ht => hts t ((prefix_of_append_eq he).subset ht)
  have hv : Viable (kinds (us ++ [t])) := viable_of_step hus hq ht (by simp [hs])
  have hr := reading_run hd hus hq
  rw [he]
  rcases hr.fault ht hs with ⟨pre, x, mid, rfl, hf, hx, hb, hn⟩ | ⟨hf, hx⟩
  -- A redeclaration: the names before it are pairwise different, and no `begin` has come.
  · refine ⟨pre.length, x, ⟨by rw [hf]; rfl, .inl ⟨hx.redeclared hv, by rw [hf]; rfl⟩⟩, ?_⟩
    intro j y hy
    by_contra hj
    have hj' : j < pre.length := Nat.lt_of_not_le hj
    rcases hy with hy | hy
    · have hp : (pre ++ x :: mid ++ t :: vs).take pre.length = pre := by simp
      exact hy.not_nodup hj' (by rw [hp, ← hn]; exact s.draft.symbols.nodup)
    · have hp : (pre ++ x :: mid ++ t :: vs).take j <+: pre ++ x :: mid := by
        rw [List.take_append_of_le_length (by simp; omega)]
        exact List.take_prefix j _
      exact hb ((hp.map Token.kind).subset hy.after_begin)
  -- An undeclared name: what was declared is without repetition, and all names before are known.
  · refine ⟨us.length, t, ⟨by rw [hf]; rfl, .inr ⟨hx.undeclared hv, by rw [hf]; rfl⟩⟩, ?_⟩
    intro j y hy
    by_contra hj
    have hj' : j < us.length := Nat.lt_of_not_le hj
    have hu : (us ++ t :: vs).take us.length = us := by simp
    obtain ⟨hn, hk⟩ := hr.of_begin hx.begin
    rcases hy with hy | hy
    · exact hy.not_nodup hj' (by rw [hu, ← hn]; exact q.draft.symbols.nodup)
    · exact hy.not_known hj' (by rwa [hu])

/-! ### The name of the program -/

def opening : List Kind := [.programKw, .identifier, .semicolon]

lemma take_prefix_opening {ks : List Kind} (h : Viable ks) : ks.take 3 <+: opening := by
  obtain ⟨_, ⟨P, rfl⟩, hp⟩ := h
  simpa [Program.yield, Program.header, opening] using hp.take 3

lemma declared_drop (h : kinds (ts.take 3) = opening) : declared ts = declared (ts.drop 3) := by
  have hd : declared (ts.take 3 ++ ts.drop 3) = declared (ts.drop 3) :=
    declared_append_of_not_mem (by rw [h]; decide) (by rw [h]; decide)
  rwa [List.take_append_drop] at hd

lemma Redeclared.after_opening (h : Redeclared ts i x) :
    3 < i ∧ x.lexeme ∈ declaredNames ((ts.take i).drop 3) := by
  obtain ⟨j, s, hij, hj, -, -, hv⟩ := h.closed
  have hp : ts.take i <+: ts.take (j + 1) := List.take_prefix_take_left (by omega)
  have hi := take_prefix_opening (hv.of_prefix (hp.map Token.kind))
  have h3 : 3 < i := by
    by_contra hle
    rw [List.take_of_length_le (by simp; omega)] at hi
    have hm := hi.subset h.after_var
    revert hm
    decide
  have hl : i < ts.length := (List.getElem?_eq_some_iff.1 h.found).1
  have ho : kinds ((ts.take i).take 3) = opening := by
    rw [kinds, List.map_take]
    exact hi.eq_of_length (by simp [opening]; omega)
  refine ⟨h3, ?_⟩
  rw [declaredNames, ← declared_drop ho]
  exact h.declared_before

/-- **Semantic errors** are reported when there is a faulty name, and the first one is reported.
The name of the program is none of the declared names and no name is declared again because of
it. -/
theorem compile_semantic_error (source : String) (ts : List Token)
    (ht : tokenize source = .ok ts) :
    ((∃ f, compile source = .error f ∧ f.stage = .semantic) ↔ ∃ i x, Violation ts i x) ∧
    (∀ f, compile source = .error f → f.stage = .semantic →
      ∃ i x, Names f ts i x ∧ ∀ j y, Violation ts j y → i ≤ j) ∧
    (kinds (ts.take 3) = opening → declared ts = declared (ts.drop 3)) ∧
    (∀ i x, Redeclared ts i x → 3 < i ∧ x.lexeme ∈ declaredNames ((ts.take i).drop 3)) := by
  obtain ⟨us, e, rfl, hu, hr⟩ := tokenize_ok ht
  have hn : ∀ f, compile source = .error f → f.stage = .semantic → ∃ i x,
      Names f (us ++ [e.1]) i x ∧ ∀ j y, Violation (us ++ [e.1]) j y → i ≤ j := by
    intro f hf hs
    obtain ⟨s, h, rfl⟩ := (compile_eq_error ht).1 hf
    exact names_of_run (fresh_initial _ _).1 hu h hs
  refine ⟨⟨?_, ?_⟩, hn, declared_drop, fun i x => Redeclared.after_opening⟩
  · rintro ⟨f, hf, hs⟩
    obtain ⟨i, x, ⟨-, hx⟩, -⟩ := hn f hf hs
    exact ⟨i, x, hx.imp And.left And.left⟩
  · rintro ⟨i, x, hx⟩
    obtain ⟨s, h, hs⟩ := hx.exists_semantic (fresh_initial #[] _).1 hu (hr.append_eof e)
    exact ⟨s.fault, (compile_eq_error ht).2 ⟨s, h, rfl⟩, hs⟩

/-- A text with two faulty names, which also declares the name of the program. -/
def faultyNames : String := "program p; var a, p, a: integer; begin c := 1 end."

def faultyNamesTokens : List Token :=
  [⟨.programKw, "program", ⟨1, 1⟩⟩, ⟨.identifier, "p", ⟨1, 9⟩⟩, ⟨.semicolon, ";", ⟨1, 10⟩⟩,
    ⟨.varKw, "var", ⟨1, 12⟩⟩, ⟨.identifier, "a", ⟨1, 16⟩⟩, ⟨.comma, ",", ⟨1, 17⟩⟩,
    ⟨.identifier, "p", ⟨1, 19⟩⟩, ⟨.comma, ",", ⟨1, 20⟩⟩, ⟨.identifier, "a", ⟨1, 22⟩⟩,
    ⟨.colon, ":", ⟨1, 23⟩⟩, ⟨.integerKw, "integer", ⟨1, 25⟩⟩, ⟨.semicolon, ";", ⟨1, 32⟩⟩,
    ⟨.beginKw, "begin", ⟨1, 34⟩⟩, ⟨.identifier, "c", ⟨1, 40⟩⟩, ⟨.assign, ":=", ⟨1, 42⟩⟩,
    ⟨.number, "1", ⟨1, 45⟩⟩, ⟨.endKw, "end", ⟨1, 47⟩⟩, ⟨.dot, ".", ⟨1, 50⟩⟩,
    ⟨.eof, "", ⟨1, 51⟩⟩]

theorem compile_semantic_error_faultyNames :
    tokenize faultyNames = .ok faultyNamesTokens ∧
      ∃ f i x, compile faultyNames = .error f ∧
        f = .redeclared ⟨.identifier, "a", ⟨1, 22⟩⟩ ∧
        Names f faultyNamesTokens i x ∧ ∀ j y, Violation faultyNamesTokens j y → i ≤ j := by
  have ht : tokenize faultyNames = .ok faultyNamesTokens := by decide +kernel
  have hf : compile faultyNames = .error (.redeclared ⟨.identifier, "a", ⟨1, 22⟩⟩) := by
    decide +kernel
  obtain ⟨i, x, hx⟩ := (compile_semantic_error faultyNames faultyNamesTokens ht).2.1 _ hf rfl
  exact ⟨ht, _, i, x, hf, rfl, hx⟩

end OnePass.Grammar
