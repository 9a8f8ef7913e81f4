import OnePass.Compile
import OnePass.Proofs.Reading
import OnePass.Proofs.Scanned

/-!
The translation in one pass against the grammar: which texts are translated, and to what.
-/

namespace OnePass.Grammar

open Parse

/-! ### Names of a program -/

lemma identifiers_group (g : Group) : identifiers g.yield = g.names := by
  have hm : ∀ more : List (Terminal .comma × Terminal .identifier),
      identifiers (moreNamesYield more) = more.map fun p => p.2.1 := by
    intro more
    induction more with
    | nil => rfl
    | cons p more ih =>
      rw [moreNamesYield, List.flatMap_cons, identifiers_append, ← moreNamesYield, ih]
      simp [identifiers]
  rw [Group.yield, identifiers_append, ← List.singleton_append, identifiers_append, hm]
  simp [identifiers, Group.names]

lemma identifiers_groups (gs : List Group) :
    identifiers (gs.flatMap Group.yield) = gs.flatMap Group.names := by
  induction gs with
  | nil => rfl
  | cons g gs ih =>
    rw [List.flatMap_cons, List.flatMap_cons, identifiers_append, identifiers_group, ih]

namespace Program

lemma not_mem_kinds_header (P : Program) {k : Kind} (hk : k ∉ headerKinds) :
    k ∉ kinds P.header := by
  intro h
  obtain ⟨t, ht, rfl⟩ := List.mem_map.1 h
  exact hk (P.kind_mem_header t ht)

lemma begin_not_mem_header (P : Program) : .beginKw ∉ kinds P.header :=
  P.not_mem_kinds_header (by decide)

lemma var_mem_header (P : Program) : .varKw ∈ kinds P.header ↔ P.declarations.isSome = true := by
  cases hd : P.declarations with
  | none => simp [header, hd]
  | some ds => simp [header, hd, Declarations.yield]

lemma fromBegin_yield (P : Program) :
    fromBegin P.yield = P.begin.1 :: P.body.yield ++ [P.finish.1, P.dot.1] := by
  rw [yield, List.append_assoc, fromBegin_append_of_not_mem P.begin_not_mem_header]
  simp [fromBegin]

lemma getLast?_kinds_yield (P : Program) : (kinds P.yield).getLast? = some .dot := by
  have hy : P.yield = P.header ++ P.begin.1 :: P.body.yield ++ [P.finish.1] ++ [P.dot.1] := by
    simp [yield]
  rw [hy, kinds, List.map_append, List.map_singleton, List.getLast?_concat, P.dot.2]

lemma declaredNames_header (P : Program) : declaredNames P.header = P.variableNames := by
  have hb := P.begin_not_mem_header
  rw [variableNames, names, declaredNames]
  cases hd : P.declarations with
  | none =>
    rw [header, hd, declared_eq_nil (by simp)]
    rfl
  | some ds =>
    have hs : P.header = [P.program.1, P.name.1, P.semicolon.1, ds.var.1] ++
        ds.groups.flatMap Group.yield := by simp [header, hd, Declarations.yield]
    rw [hs] at hb ⊢
    rw [← declaredNames, declaredNames_append (by simp) hb, identifiers_groups]
    simp [declaredNames, declared, beforeBegin, identifiers, Declarations.names]

lemma declaredNames_yield (P : Program) : declaredNames P.yield = P.variableNames := by
  rw [yield, List.append_assoc, List.cons_append, declaredNames, declared_append_cons P.begin.2,
    ← declaredNames, declaredNames_header]

end Program

/-! ### What a program is translated to -/

/-- Declared names are distinct, and every name used in the body is declared. -/
def Program.WellNamed (P : Program) : Prop :=
  P.variableNames.Nodup ∧ Known P.variableNames P.body.yield

/-- A draft in which nothing has been declared and no label is in use. -/
def Fresh (d : Draft) : Prop := d.symbols.names = [] ∧ d.labels = 0

lemma Declarations.walk_eq (ds : Declarations) (d : Draft) :
    ds.walk d = d.declareAll ds.names >>= fun d => .ok (d.emit (.allocate d.symbols.size)) := by
  have hg : ∀ (gs : List Group) (d : Draft), gs.foldlM (fun d g => d.declareAll g.names) d =
      d.declareAll (gs.flatMap Group.names) := by
    intro gs
    induction gs with
    | nil => exact fun d => rfl
    | cons g gs ih =>
      intro d
      rw [List.foldlM_cons, List.flatMap_cons, Draft.declareAll_append]
      exact bind_congr ih
  rw [Declarations.walk, hg, Declarations.names]
  rfl

lemma walk_declarations {ds : Option Declarations} {d : Draft} (hd : Fresh d)
    (hn : ((ds.elim [] Declarations.names).map Token.lexeme).Nodup) :
    ∃ d', ds.elim (.ok d) (·.walk d) = .ok d' ∧
      d'.symbols.names = (ds.elim [] Declarations.names).map Token.lexeme ∧ d'.labels = 0 ∧
      d'.code = d.code ++
        (ds.elim [] fun ds => [Instruction.allocate ds.names.length]).toArray := by
  cases ds with
  | none => exact ⟨d, rfl, hd.1, hd.2, by simp⟩
  | some ds =>
    have hn' : (d.symbols.names ++ ds.names.map Token.lexeme).Nodup := by simpa [hd.1] using hn
    obtain ⟨d', h, hs, hl, hc⟩ := Draft.declareAll_of_nodup hn'
    refine ⟨d'.emit (.allocate d'.symbols.size), ?_, by simp [hs, hd.1], hl.trans hd.2, ?_⟩
    · rw [Option.elim_some, ds.walk_eq, h, ok_bind]
    · simp [Draft.emit, hc, SymbolTable.size, hs, hd.1]

lemma Program.walk_of_wellNamed {P : Program} {d : Draft} (hd : Fresh d) (hP : P.WellNamed)
    (hr : InRange P.body.yield) :
    ∃ d', P.walk d = .ok d' ∧ d'.symbols.names = P.variableNames ∧
      d'.code = d.code ++ P.code.toArray := by
  obtain ⟨d₁, h₁, hs, hl, hc⟩ := walk_declarations (d := d.emit .start) hd hP.1
  have hk : Known d₁.symbols.names P.body.yield := by
    rw [hs]
    exact hP.2
  have hw : P.walk d = .ok ((grow d₁ (P.body.code (addressIn d₁.symbols.names) d₁.labels)
      P.body.loops).emit .halt) := by
    simp only [Program.walk, pure_eq_ok]
    rw [h₁, ok_bind, P.body.walk_of_known d₁ hk hr, ok_bind]
  refine ⟨_, hw, hs, ?_⟩
  simp [Draft.emit, grow, hc, hs, hl, Program.code, Program.allocation, Program.variableNames,
    Program.names]

/-! ### What the parser accepts -/

lemma append_eof_inj {us vs ws : List Token} {e e' : Terminal .eof}
    (hu : ∀ t ∈ us, t.kind ≠ .eof) (hv : ∀ t ∈ vs, t.kind ≠ .eof)
    (h : us ++ e.1 :: ws = vs ++ [e'.1]) : us = vs := by
  induction us generalizing vs with
  | nil =>
    cases vs with
    | nil => rfl
    | cons v vs =>
      obtain ⟨rfl, -⟩ := List.cons.inj h
      exact absurd e.2 (hv _ (by simp))
  | cons u us ih =>
    cases vs with
    | nil =>
      obtain ⟨rfl, -⟩ := List.cons.inj h
      exact absurd e'.2 (hu _ (by simp))
    | cons v vs =>
      obtain ⟨rfl, ht⟩ := List.cons.inj h
      rw [List.forall_mem_cons] at hu hv
      rw [ih hu.2 hv.2 ht]

variable {ts us : List Token} {e : Terminal .eof} {d d' : Draft} {q : Parse} {P : Program}

lemma prefix_of_append_eq {vs : List Token} {t : Token} (h : ts ++ [e.1] = us ++ t :: vs) :
    us <+: ts := by
  have hp : us <+: ts ++ [e.1] := ⟨t :: vs, h.symm⟩
  rcases List.prefix_concat_iff.1 hp with rfl | hp
  · simp at h
  · exact hp

lemma exists_program_of_run (hu : ∀ t ∈ us, t.kind ≠ .eof)
    (h : run ⟨Goal.program, d⟩ (us ++ [e.1]) = .ok q) : ∃ P : Program, P.yield = us := by
  rw [run_append] at h
  obtain ⟨p, hp, h⟩ := bind_eq_ok.1 h
  obtain ⟨q', hq, -⟩ := bind_eq_ok.1 h
  obtain ⟨ho, hm⟩ := run_sound open_program hu hp
  obtain ⟨ws, hw⟩ := MeetsAll.exists q'.goals
  obtain ⟨P, e', hP⟩ := (hm _ ((settle_sound ho hq).2 ws hw)).program
  exact ⟨P, (append_eof_inj hu P.kind_ne_eof hP).symm⟩

lemma wellNamed_of_run (hd : Fresh d) (h : run ⟨Goal.program, d⟩ P.yield = .ok q) :
    P.WellNamed := by
  have hr := reading_run hd.1 P.kind_ne_eof h
  obtain ⟨hs, hk⟩ := hr.of_begin (by simp [Program.yield])
  rw [P.declaredNames_yield] at hs hk
  rw [P.fromBegin_yield] at hk
  refine ⟨hs ▸ q.draft.symbols.nodup, ?_⟩
  simp only [List.cons_append, known_cons, known_append] at hk
  exact hk.2.1

lemma parseProgram_yield (hd : Fresh d) (hP : P.WellNamed) (hr : InRange P.yield) :
    ∃ d', parseProgram d (P.yield ++ [e.1]) = .ok d' ∧ d'.symbols.names = P.variableNames ∧
      d'.code = d.code ++ P.code.toArray := by
  have hb : InRange P.body.yield := fun t ht => hr t (by simp [Program.yield, ht])
  obtain ⟨d', hw, hs, hc⟩ := Program.walk_of_wellNamed hd hP hb
  exact ⟨d', by rw [parseProgram, P.run_yield, hw]; rfl, hs, hc⟩

lemma parseProgram_ok (hd : Fresh d) (hu : ∀ t ∈ us, t.kind ≠ .eof) (hr : InRange us)
    (h : parseProgram d (us ++ [e.1]) = .ok d') :
    ∃ P : Program, P.yield = us ∧ P.WellNamed ∧ d'.symbols.names = P.variableNames ∧
      d'.code = d.code ++ P.code.toArray := by
  obtain ⟨q, hq, rfl⟩ := map_eq_ok.1 h
  obtain ⟨P, rfl⟩ := exists_program_of_run hu hq
  obtain ⟨p, hp, -⟩ := bind_eq_ok.1 (run_append _ _ _ ▸ hq)
  have hP := wellNamed_of_run hd hp
  obtain ⟨d₁, h₁, hs, hc⟩ := parseProgram_yield (e := e) hd hP hr
  obtain rfl := Except.ok.inj (h.symm.trans h₁)
  exact ⟨P, rfl, hP, hs, hc⟩

/-! ### From the text -/

/-- The draft in which a program of `n` tokens is compiled. -/
def initial (sink : Array Instruction) (n : Nat) : Draft := (Draft.onto sink).record (.scanned n)

lemma fresh_initial (sink : Array Instruction) (n : Nat) : Fresh (initial sink n) := ⟨rfl, rfl⟩

section Outcome

variable {sink : Array Instruction} {source : String}

lemma compileInto_of_error {s : Stop} (ht : tokenize source = .ok ts)
    (hp : parseProgram (initial sink ts.length) ts = .error s) :
    compileInto sink source = ⟨.error s.fault, s.draft.code, s.draft.events.toList⟩ := by
  rw [initial] at hp
  simp only [compileInto, ht, hp]

lemma compileInto_of_ok (ht : tokenize source = .ok ts)
    (hp : parseProgram (initial sink ts.length) ts = .ok d) :
    (compileInto sink source).result = .ok d.symbols ∧
      (compileInto sink source).code = d.code := by
  rw [initial] at hp
  simp only [compileInto, ht, hp, and_self]

lemma compileInto_eq_ok {table : SymbolTable} {code : Array Instruction} :
    (compileInto sink source).result = .ok table ∧ (compileInto sink source).code = code ↔
      ∃ ts d, tokenize source = .ok ts ∧ parseProgram (initial sink ts.length) ts = .ok d ∧
        d.symbols = table ∧ d.code = code := by
  cases ht : tokenize source with
  | error f => simp [compileInto, ht]
  | ok ts =>
    cases hp : parseProgram (initial sink ts.length) ts with
    | error s => simp [compileInto_of_error ht hp, hp]
    | ok d => simp [compileInto_of_ok ht hp, hp]

lemma compile_eq_error {f : Fault} (ht : tokenize source = .ok ts) :
    compile source = .error f ↔
      ∃ s, run ⟨Goal.program, initial #[] ts.length⟩ ts = .error s ∧ s.fault = f := by
  rw [compile, map_eq_error]
  cases h : run ⟨Goal.program, initial #[] ts.length⟩ ts with
  | error s => simp [compileInto_of_error ht (map_eq_error.2 h)]
  | ok q => simp [(compileInto_of_ok ht (map_eq_ok.2 ⟨q, h, rfl⟩)).1]

lemma exists_program_of_compileInto {table : SymbolTable}
    (h : (compileInto sink source).result = .ok table) :
    ∃ (P : Program) (e : Terminal .eof), tokenize source = .ok (P.yield ++ [e.1]) ∧
      P.WellNamed ∧ table.names = P.variableNames ∧
      (compileInto sink source).code = sink ++ P.code.toArray := by
  obtain ⟨ts, d, ht, hp, rfl, hc⟩ := compileInto_eq_ok.1 ⟨h, rfl⟩
  obtain ⟨us, e, rfl, hu, hr⟩ := tokenize_ok ht
  obtain ⟨P, rfl, hP, hs, hcode⟩ := parseProgram_ok (fresh_initial _ _) hu hr hp
  exact ⟨P, e, ht, hP, hs, hc.symm.trans hcode⟩

lemma exists_program_of_compile {code : List Instruction} (h : compile source = .ok code) :
    ∃ (P : Program) (e : Terminal .eof), tokenize source = .ok (P.yield ++ [e.1]) ∧
      P.WellNamed ∧ code = P.code := by
  obtain ⟨table, ht, hc⟩ := map_eq_ok.1 h
  obtain ⟨P, e, htok, hP, -, hcode⟩ := exists_program_of_compileInto ht
  refine ⟨P, e, htok, hP, ?_⟩
  rw [← hc, hcode]
  simp

/-- `P` is a derivation of the text. -/
def Program.Derives (P : Program) (source : String) : Prop :=
  ∃ e : Terminal .eof, tokenize source = .ok (P.yield ++ [e.1])

lemma Program.Derives.eq {P Q : Program} (hP : P.Derives source) (hQ : Q.Derives source) :
    P = Q := by
  obtain ⟨e, he⟩ := hP
  obtain ⟨e', he'⟩ := hQ
  have h := Except.ok.inj (he.symm.trans he')
  exact Program.eq_of_yield_eq (append_eof_inj P.kind_ne_eof Q.kind_ne_eof h)

lemma Program.Derives.compileInto {P : Program} (h : P.Derives source) (hP : P.WellNamed)
    (sink : Array Instruction) :
    ∃ table, (compileInto sink source).result = .ok table ∧ table.names = P.variableNames ∧
      (compileInto sink source).code = sink ++ P.code.toArray := by
  obtain ⟨e, ht⟩ := h
  obtain ⟨us, e', hu, -, hr⟩ := tokenize_ok ht
  obtain ⟨rfl, -⟩ := List.append_inj' hu rfl
  obtain ⟨d, hp, hs, hc⟩ := parseProgram_yield (fresh_initial sink (P.yield ++ [e.1]).length) hP hr
  obtain ⟨htab, hcode⟩ := compileInto_of_ok ht hp
  exact ⟨_, htab, hs, hcode.trans hc⟩

lemma Program.Derives.compile {P : Program} (h : P.Derives source) (hP : P.WellNamed) :
    compile source = .ok P.code := by
  obtain ⟨table, htab, -, hcode⟩ := h.compileInto hP #[]
  refine map_eq_ok.2 ⟨table, htab, ?_⟩
  simp [hcode]

end Outcome

lemma names_toList (table : SymbolTable) : table.toList.map Symbol.name = table.names := by
  simp [SymbolTable.toList, Function.comp_def]

/-- **The translation in one pass** succeeds on the texts of programs whose names are in order,
and gives the code and the names of the derivation, of which there is only one. -/
theorem compileInto_ok_iff (source : String) (table : SymbolTable) (code : List Instruction) :
    ((compileInto #[] source).result = .ok table ∧
        (compileInto #[] source).code = code.toArray ↔
      ∃ (ts : List Token) (e : Token), tokenize source = .ok (ts ++ [e]) ∧ e.kind = .eof ∧
        ∃ P : Program, P.yield = ts ∧
          P.variableNames.Nodup ∧ Known P.variableNames P.body.yield ∧
          table.toList = P.variableNames.zipIdx.map (fun x => ⟨x.1, x.2, .integer⟩) ∧
          code = P.code) ∧
    ∀ P Q : Program, P.yield = Q.yield → P = Q := by
  refine ⟨?_, fun P Q => Program.eq_of_yield_eq⟩
  constructor
  · rintro ⟨htab, hc⟩
    obtain ⟨P, e, ht, hP, hs, hcode⟩ := exists_program_of_compileInto htab
    refine ⟨P.yield, e.1, ht, e.2, P, rfl, hP.1, hP.2, by rw [SymbolTable.toList, hs], ?_⟩
    simpa using hc.symm.trans hcode
  · rintro ⟨ts, e, ht, he, P, rfl, hn, hk, htab, rfl⟩
    obtain ⟨us, e', hu, -, hr⟩ := tokenize_ok ht
    obtain ⟨rfl, he'⟩ := List.append_inj' hu rfl
    obtain ⟨d, hp, hs, hc⟩ := parseProgram_yield (e := ⟨e, he⟩)
      (fresh_initial #[] (P.yield ++ [e]).length) ⟨hn, hk⟩ hr
    refine compileInto_eq_ok.2
      ⟨_, d, ht, hp, ?_, by simpa [initial, Draft.onto, Draft.record] using hc⟩
    -- A symbol table is determined by its names.
    have hnames : d.symbols.names = table.names := by
      rw [hs, ← names_toList table, htab]
      simp [Function.comp_def]
    cases hd : d.symbols
    cases table
    simp_all

end OnePass.Grammar
