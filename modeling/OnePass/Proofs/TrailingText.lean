import OnePass.Proofs.Emission
import OnePass.Proofs.Relocation
import OnePass.Proofs.SharedSink
import OnePass.Proofs.Stages

/-!
Text after a program. The last `.` of a program is joined to nothing, so what comes after it is
scanned as it would be alone; and the parser, which wants only the end of input by then, looks at
its first token.
-/

namespace OnePass

variable {p : Position} {tiles : List Tile} {us ts : List Token} {gap : List Char}

/-! ### The scanner after a `.` -/

lemma Spells.eq_dot {s : String} (h : Spells .dot s) : s = "." := by
  have hr : ∀ x ∈ reservedWords, x.2 ≠ .dot := by decide
  have hs : ∀ x ∈ signs, x.2 = .dot → x.1 = "." := by decide
  cases h with
  | reserved h => exact absurd rfl (hr _ h)
  | sign h => exact hs _ h rfl

lemma Tiled.append_of_dot (h : Tiled p tiles gap) (hg : AllBlank gap)
    (hd : (tiles.map fun x => x.token.kind).getLast? = some .dot) (more : List Char) :
    Tiled p tiles (gap ++ more) := by
  refine h.append fun w a hw ha c _ hl => ?_
  rcases List.eq_nil_or_concat gap with rfl | ⟨gap, b, rfl⟩
  -- If blanks follow the dot, the last character is in no lexeme.
  case inr =>
    rw [List.concat_eq_append, layout_append, List.getLast?_concat, Option.some.injEq] at ha
    exact hw.not_isBlank_of_mem (c := a) (by simp) (ha ▸ hg b (by simp))
  rcases List.eq_nil_or_concat tiles with rfl | ⟨tiles, x, rfl⟩
  · cases hd
  rw [List.concat_eq_append] at h ha hd
  rw [List.map_append, List.map_singleton, List.getLast?_concat, Option.some.injEq] at hd
  have hx : x.lexeme = ['.'] := by
    have hs := (tiled_iff.1 h tiles x [] rfl).spells
    rw [hd] at hs
    rw [Tile.lexeme, hs.eq_dot]
    rfl
  have hn : layout (tiles ++ [x]) [] = tiles.flatMap Tile.text ++ x.gap ++ ['.'] := by
    simp [layout, Tile.text, hx]
  rw [hn, List.getLast?_concat, Option.some.injEq] at ha
  subst ha
  -- No lexeme goes on after a dot.
  rcases hw.joins hl with ⟨hc, -⟩ | ⟨hc, -⟩
  · exact absurd hc (by decide)
  · exact absurd hc (by decide)

/-- **What comes after a `.`** is scanned as if it stood alone, but for its place. -/
theorem tokenize_append_of_dot {source : String} {e : Token} (h : tokenize source = .ok (us ++ [e]))
    (hd : (Grammar.kinds us).getLast? = some .dot) (text : String) :
    tokenize (source ++ text) =
      mapBoth (Fault.relocate source.toList) (us ++ List.map (Token.relocate source.toList) ·)
        (tokenize text) := by
  obtain ⟨tiles, last, he, hl, ht, hts⟩ := exists_tiled_of_ok ((tokenize_eq _).symm.trans h)
  obtain ⟨rfl, -⟩ := List.append_inj' hts rfl
  have ht' : Tiled .start tiles (last ++ text.toList) :=
    ht.append_of_dot hl (by simpa [Grammar.kinds, Function.comp_def] using hd) text.toList
  calc tokenize (source ++ text)
      = scanFrom .start (layout tiles (last ++ text.toList)) := by
        rw [tokenize_eq, String.toList_append, he, layout_append]
    _ = (scanFrom (.after source.toList) text.toList).map (tiles.map Tile.token ++ ·) := by
        rw [ht'.scanFrom_gap hl, ← he, Position.advance_start]
    _ = _ := by
        rw [scanFrom_relocate, ← tokenize_eq]
        cases tokenize text with
        | ok ts => rfl
        | error f => rfl

lemma exists_token {text : String} (h : tokenize text = .ok ts) (hb : ¬ AllBlank text.toList) :
    ∃ t us, ts = t :: us ∧ t.kind ≠ .eof := by
  obtain ⟨tiles, last, he, hl, ht, hts⟩ := exists_tiled_of_ok ((tokenize_eq _).symm.trans h)
  cases tiles with
  | nil =>
    rw [he] at hb
    exact absurd hl hb
  | cons x tiles => exact ⟨x.token, _, hts, ht.1.spells.ne_eof⟩

namespace Grammar

open Parse

variable {sink : Array Instruction} {source : String} {table : SymbolTable}

/-! ### The parser after a program -/

/-- **After the last `.`** of a program its code lacks only the last instruction, and only the end
of input is wanted. -/
lemma exists_closing (h : (compileInto sink source).result = .ok table) :
    ∃ (us : List Token) (e : Terminal .eof) (q : Parse), tokenize source = .ok (us ++ [e.1]) ∧
      (kinds us).getLast? = some .dot ∧ run ⟨Goal.program, .onto #[]⟩ us = .ok q ∧
      q.goals = closing.drop 1 ∧ q.draft.symbols = table ∧
      (compileInto sink source).code = sink ++ (q.draft.emit .halt).code := by
  obtain ⟨P, e, ht, -, -, hcode⟩ := exists_program_of_compileInto h
  have hc := compileInto_of_tokenize sink ht
  cases hp : parseProgram (.onto #[]) (P.yield ++ [e.1]) with
  | error s =>
    rw [hc, hp] at h
    cases h
  | ok d =>
    simp only [hp] at hc
    obtain ⟨q', hr, rfl⟩ := map_eq_ok.1 hp
    rw [run_append] at hr
    obtain ⟨q, hq, hr⟩ := bind_eq_ok.1 hr
    obtain ⟨q₁, hs, hr⟩ := bind_eq_ok.1 hr
    cases hr
    have hd : q'.draft.code = P.code.toArray := by
      rw [hc] at hcode
      exact (Array.append_right_inj sink).1 hcode
    obtain ⟨⟨gs, hg, hi⟩ | hg, hn⟩ := unhalted_run (by simp [Draft.onto]) P.kind_ne_eof hq
    · -- The end of input came too early, and the last instruction would be missing.
      rw [Parse.step, hg] at hs
      refine absurd ?_ (unhalted_settle hi hn hs).code
      simp [hd, Program.code]
    · rw [Parse.step, hg, settle_halt, if_pos e.2] at hs
      cases hs
      rw [hc] at h
      exact ⟨P.yield, e, q, ht, P.getLast?_kinds_yield, hq, hg, Except.ok.inj h, by rw [hc]⟩

/-- **Text after a program**: white space changes nothing; text that cannot be scanned is reported
as if it stood alone, further down, and then there is no code; and of any other text the first token
is reported, after all the code of the program. -/
theorem compileInto_append (sink : Array Instruction) (source text : String) (table : SymbolTable)
    (h : (compileInto sink source).result = .ok table) :
    (AllBlank text.toList →
      (compileInto sink (source ++ text)).result = .ok table ∧
      (compileInto sink (source ++ text)).code = (compileInto sink source).code) ∧
    (∀ f, tokenize text = .error f →
      f.stage = .lexical ∧
      (compileInto sink (source ++ text)).result = .error (f.relocate source.toList) ∧
      (compileInto sink (source ++ text)).code = sink) ∧
    ∀ ts, tokenize text = .ok ts → ¬ AllBlank text.toList →
      ∃ t us f, ts = t :: us ∧ t.kind ≠ .eof ∧
        (compileInto sink (source ++ text)).result = .error f ∧ f.stage = .syntactic ∧
        f.position = t.position.relocate source.toList ∧
        f.description = s!"expected end of input, found {t.describe}" ∧
        (compileInto sink (source ++ text)).code = (compileInto sink source).code ∧
        (compileInto sink (source ++ text)).code.back? = some .halt := by
  obtain ⟨us, e, q, ht, hdot, hq, hg, rfl, hcode⟩ := exists_closing h
  have hscan := tokenize_append_of_dot ht hdot text
  refine ⟨fun hb => ?_, fun f hf => ?_, fun ts hts hb => ?_⟩
  -- Blanks only move the end of input.
  · have htext := scanFrom_gap .start hb []
    rw [List.append_nil, scanFrom_nil, ← tokenize_eq] at htext
    rw [htext] at hscan
    have hp := (parseProgram_of_closing hq hg
      (Token.relocate source.toList ⟨.eof, "", Position.start.advance text.toList⟩) []).1 rfl
    rw [compileInto_of_tokenize sink hscan, hcode]
    simp only [List.map_singleton, hp]
    exact ⟨rfl, trivial⟩
  -- The scan of the whole fails in the appended text, before anything is parsed.
  · rw [hf] at hscan
    simp only [compileInto, hscan]
    exact ⟨stage_of_tokenize hf, rfl, rfl⟩
  -- There is a token after the dot, where only the end of input may stand.
  · obtain ⟨t, us', rfl, hk⟩ := exists_token hts hb
    rw [hts] at hscan
    have hp := (parseProgram_of_closing hq hg (t.relocate source.toList)
      (us'.map (Token.relocate source.toList))).2 hk
    have hc := compileInto_of_tokenize sink hscan
    simp only [List.map_cons, hp] at hc
    rw [hcode, hc]
    refine ⟨t, us', _, rfl, hk, rfl, rfl, rfl, rfl, rfl, ?_⟩
    simp [Draft.emit]

/-- A second `.` on a line of its own is reported there. -/
theorem compileInto_append_dot :
    (compileInto #[] "program p;begin end.").result = .ok .empty ∧
      tokenize "\n ." = .ok [⟨.dot, ".", ⟨2, 2⟩⟩, ⟨.eof, "", ⟨2, 3⟩⟩] ∧
      ¬ AllBlank "\n .".toList ∧
      ∃ f, (compileInto #[] ("program p;begin end." ++ "\n .")).result = .error f ∧
        f.stage = .syntactic ∧ f.position = ⟨2, 2⟩ ∧
        f.description = "expected end of input, found \".\"" ∧
        (compileInto #[] ("program p;begin end." ++ "\n .")).code = #[.start, .halt] := by
  have h : (compileInto #[] "program p;begin end.").result = .ok .empty := by decide +kernel
  have hc : (compileInto #[] "program p;begin end.").code = #[.start, .halt] := by decide +kernel
  have ht : tokenize "\n ." = .ok [⟨.dot, ".", ⟨2, 2⟩⟩, ⟨.eof, "", ⟨2, 3⟩⟩] := by decide
  have hb : ¬ AllBlank "\n .".toList := by decide
  obtain ⟨t, us, f, hts, -, hf, hs, hp, hd, hcode, -⟩ :=
    (compileInto_append #[] "program p;begin end." "\n ." .empty h).2.2 _ ht hb
  cases hts
  exact ⟨h, ht, hb, f, hf, hs, hp.trans (by decide), hd, hcode.trans hc⟩

end Grammar

end OnePass
