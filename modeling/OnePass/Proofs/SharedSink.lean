import OnePass.Proofs.Translation

/-!
What was there before a compilation does not matter to it.

The parser adds to the code and to the events of a draft, and never looks at them. So whatever is
put before them stays there, and everything else is as it would be without it.
-/

namespace OnePass

/-! ### Drafts with something before them -/

/-- The draft with more code and more events before its own. -/
def Draft.behind (code : Array Instruction) (events : Array Event) (d : Draft) : Draft :=
  { d with code := code ++ d.code, events := events ++ d.events }

def Stop.behind (code : Array Instruction) (events : Array Event) (s : Stop) : Stop :=
  { s with draft := s.draft.behind code events }

def Reply.behind (code : Array Instruction) (events : Array Event) : Reply → Reply
  | pass d => pass (d.behind code events)
  | take d goals => take (d.behind code events) goals

def Parse.behind (code : Array Instruction) (events : Array Event) (p : Parse) : Parse :=
  { p with draft := p.draft.behind code events }

variable (code : Array Instruction) (events : Array Event)

namespace Draft

variable (d : Draft) (t : Token)

@[simp] lemma symbols_behind : (d.behind code events).symbols = d.symbols := rfl

@[simp] lemma emit_behind (i : Instruction) :
    (d.behind code events).emit i = (d.emit i).behind code events := by
  simp [behind, emit]

@[simp] lemma newLabel_behind :
    (d.behind code events).newLabel = (d.newLabel.1, d.newLabel.2.behind code events) := by
  simp [newLabel, behind, record]

lemma declare_behind :
    (d.behind code events).declare t =
      mapBoth (Stop.behind code events) (behind code events) (d.declare t) := by
  unfold declare
  rw [symbols_behind]
  cases d.symbols.declare t with
  | error f => rfl
  | ok x => simp [behind, record]

lemma declareAll_behind (ts : List Token) :
    (d.behind code events).declareAll ts =
      mapBoth (Stop.behind code events) (behind code events) (d.declareAll ts) := by
  induction ts generalizing d with
  | nil => rfl
  | cons t ts ih =>
    simp only [declareAll, List.foldlM_cons] at ih ⊢
    rw [declare_behind]
    exact bind_mapBoth ih

lemma addressOf_behind :
    (d.behind code events).addressOf t = mapBoth (Stop.behind code events) id (d.addressOf t) := by
  unfold addressOf
  rw [symbols_behind]
  cases d.symbols.resolve t with
  | error f => rfl
  | ok x => rfl

lemma valueOf_behind :
    (d.behind code events).valueOf t = mapBoth (Stop.behind code events) id (d.valueOf t) := by
  unfold valueOf
  cases Text.literalValue? t.lexeme with
  | none => rfl
  | some n => rfl

end Draft

/-! ### The parser -/

namespace Goal

variable (d : Draft) (t : Token)

lemma Take.on_behind (m : Take) :
    m.on (d.behind code events) t =
      mapBoth (Stop.behind code events) (Reply.behind code events) (m.on d t) := by
  cases m with
  | go new | name group => rfl
  | store new =>
    simp only [on]
    rw [Draft.addressOf_behind]
    exact bind_mapBoth fun a => rfl
  | load =>
    simp only [on]
    rw [Draft.addressOf_behind]
    exact bind_mapBoth fun a => by simp [Reply.behind]
  | constant =>
    simp only [on]
    rw [Draft.valueOf_behind]
    exact bind_mapBoth fun a => by simp [Reply.behind]
  | loop => simp [on, Reply.behind]
  | declare group =>
    simp only [on]
    rw [Draft.declareAll_behind]
    exact bind_mapBoth fun d => rfl

lemma Skip.on_behind (s : Skip) :
    s.on (d.behind code events) t =
      mapBoth (Stop.behind code events) (Reply.behind code events) (s.on d t) := by
  cases s with
  | pass | want w => rfl
  | emit i | allocate => simp [on, Reply.behind]

/-- **One goal** is met in the same way, whatever is before the draft. -/
lemma meet_behind (g : Goal) :
    g.meet (d.behind code events) t =
      mapBoth (Stop.behind code events) (Reply.behind code events) (g.meet d t) := by
  rcases g.meet_cases t with ⟨m, -, he⟩ | ⟨-, he⟩
  · rw [he, he, m.on_behind]
  · rw [he, he, g.otherwise.on_behind]

end Goal

namespace Parse

lemma settle_behind (t : Token) (gs : List Goal) (d : Draft) :
    settle t gs (d.behind code events) =
      mapBoth (Stop.behind code events) (Parse.behind code events) (settle t gs d) := by
  induction gs generalizing d with
  | nil => rfl
  | cons g gs ih =>
    rw [Grammar.settle_cons, Grammar.settle_cons, Goal.meet_behind]
    refine bind_mapBoth fun r => ?_
    cases r with
    | pass d => exact ih d
    | take d new => rfl

lemma run_behind (p : Parse) (ts : List Token) :
    (p.behind code events).run ts =
      mapBoth (Stop.behind code events) (Parse.behind code events) (p.run ts) := by
  induction ts generalizing p with
  | nil => rfl
  | cons t ts ih =>
    rw [run_cons, run_cons, step, Parse.behind, settle_behind]
    exact bind_mapBoth ih

end Parse

/-- **A whole program** is read in the same way, whatever is before the draft. -/
theorem parseProgram_behind (d : Draft) (ts : List Token) :
    parseProgram (d.behind code events) ts =
      mapBoth (Stop.behind code events) (Draft.behind code events) (parseProgram d ts) := by
  have hr := Parse.run_behind code events ⟨Goal.program, d⟩ ts
  rw [Parse.behind] at hr
  rw [parseProgram, hr, parseProgram]
  cases Parse.run ⟨Goal.program, d⟩ ts with
  | ok p => rfl
  | error s => rfl

/-! ### One compilation -/

namespace Grammar

variable {ts : List Token} {source : String}

lemma initial_eq_behind (sink : Array Instruction) (n : Nat) :
    initial sink n = (Draft.onto #[]).behind sink #[.scanned n] := by
  simp [initial, Draft.onto, Draft.record, Draft.behind]

lemma compileInto_of_tokenize (sink : Array Instruction) (ht : tokenize source = .ok ts) :
    compileInto sink source =
      match parseProgram (.onto #[]) ts with
      | .ok d => ⟨.ok d.symbols, sink ++ d.code, .scanned ts.length :: d.events.toList ++
          [.compiled d.symbols.size d.code.size]⟩
      | .error s => ⟨.error s.fault, sink ++ s.draft.code,
          .scanned ts.length :: s.draft.events.toList⟩ := by
  have hp := parseProgram_behind sink #[.scanned ts.length] (.onto #[]) ts
  rw [← initial_eq_behind, initial] at hp
  simp only [compileInto, ht, hp]
  cases parseProgram (.onto #[]) ts with
  | ok d => simp [Draft.behind, Draft.record]
  | error s => simp [Stop.behind, Draft.behind]

/-- **One compilation**: what is in the sink stays before the code, and matters to nothing else. -/
theorem compileInto_sink (sink : Array Instruction) (source : String) :
    compileInto sink source =
      { compileInto #[] source with code := sink ++ (compileInto #[] source).code } := by
  cases ht : tokenize source with
  | error f => simp [compileInto, ht]
  | ok ts =>
    rw [compileInto_of_tokenize sink ht, compileInto_of_tokenize #[] ht]
    cases parseProgram (.onto #[]) ts with
    | ok d => simp
    | error s => simp

/-! ### Compilations in a row -/

def emitted (source : String) : List Instruction := (compileInto #[] source).code.toList

/-- The sink after compilations that began with `sink`. -/
def sinkAfter (sink : Array Instruction) (outcomes : List Outcome) : Array Instruction :=
  (outcomes.getLast?.map Outcome.code).getD sink

lemma code_compileInto (sink : Array Instruction) (source : String) :
    (compileInto sink source).code = sink ++ (emitted source).toArray := by
  rw [compileInto_sink]
  simp [emitted]

lemma sinkAfter_compileAll (sink : Array Instruction) (sources : List String) :
    sinkAfter sink (compileAll sink sources) = sink ++ (sources.flatMap emitted).toArray := by
  induction sources generalizing sink with
  | nil => simp [compileAll, sinkAfter]
  | cons source sources ih =>
    have hc : sinkAfter sink (compileAll sink (source :: sources)) =
        sinkAfter (compileInto sink source).code
          (compileAll (compileInto sink source).code sources) := by
      simp only [compileAll, sinkAfter, List.getLast?_cons]
      cases (compileAll (compileInto sink source).code sources).getLast? <;> rfl
    calc sinkAfter sink (compileAll sink (source :: sources))
        = (compileInto sink source).code ++ (sources.flatMap emitted).toArray := by rw [hc, ih]
      _ = sink ++ (emitted source).toArray ++ (sources.flatMap emitted).toArray := by
          rw [code_compileInto]
      _ = sink ++ ((source :: sources).flatMap emitted).toArray := by simp

lemma getElem?_compileAll (sink : Array Instruction) (sources : List String) (i : Nat) :
    (compileAll sink sources)[i]? = sources[i]?.map fun source =>
      { compileInto #[] source with
        code := sink ++ ((sources.take (i + 1)).flatMap emitted).toArray } := by
  induction sources generalizing sink i with
  | nil => rfl
  | cons source sources ih =>
    cases i with
    | zero =>
      rw [compileAll, List.getElem?_cons_zero, List.getElem?_cons_zero, Option.map_some,
        compileInto_sink]
      simp [emitted]
    | succ i =>
      rw [compileAll, List.getElem?_cons_succ, List.getElem?_cons_succ, ih, code_compileInto]
      simp

/-- **Compilations that share a sink** do not interfere. In the end the sink holds what it held at
first and then what each program alone emits, also where it fails; and each program has the result
and the events that it has alone. The code of a program alone is what is left in an empty sink. -/
theorem compileAll_independent (sink : Array Instruction) (sources : List String) :
    sinkAfter sink (compileAll sink sources) = sink ++ (sources.flatMap emitted).toArray ∧
    (∀ i : Nat, (compileAll sink sources)[i]? = sources[i]?.map fun source =>
      { compileInto #[] source with
        code := sink ++ ((sources.take (i + 1)).flatMap emitted).toArray }) ∧
    ∀ source : String,
      (∀ code, compile source = .ok code ↔
        (∃ table, (compileInto #[] source).result = .ok table) ∧
          (compileInto #[] source).code = code.toArray) ∧
      ∀ f, compile source = .error f ↔ (compileInto #[] source).result = .error f := by
  refine ⟨sinkAfter_compileAll sink sources, getElem?_compileAll sink sources, fun source => ?_⟩
  refine ⟨fun code => ?_, fun f => map_eq_error⟩
  rw [compile, map_eq_ok, exists_and_right, ← Array.toList_inj]

end Grammar

end OnePass
