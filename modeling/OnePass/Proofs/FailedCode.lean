import OnePass.Proofs.Completion
import OnePass.Proofs.Operands

/-!
The code that a compilation leaves behind when it fails.
-/

namespace OnePass

lemma Tiled.left {p : Position} {tiles more : List Tile} {rest : List Char}
    (h : Tiled p (tiles ++ more) rest) : Tiled p tiles (layout more rest) := by
  refine tiled_iff.2 fun before x after he => ?_
  have hf := tiled_iff.1 h before x (after ++ more) (by simp [he])
  simpa [layout] using hf

namespace Grammar

open Parse

variable {ts us vs us' vs' : List Token} {t x : Token} {d : Draft} {q : Parse} {s : Stop}
  {source : String} {n : Nat}

/-! ### A token after the program -/

lemma exists_source_before (h : tokenize source = .ok (ts ++ t :: us)) :
    ∃ (a b : String) (e : Terminal .eof), source = a ++ b ∧ tokenize a = .ok (ts ++ [e.1]) := by
  obtain ⟨tiles, last, he, -, hf, ht⟩ := exists_tiled_of_ok ((tokenize_eq _).symm.trans h)
  obtain ⟨zs, hz⟩ := prefix_of_append_eq
    (e := ⟨⟨.eof, "", Position.start.advance source.toList⟩, rfl⟩) ht.symm
  obtain ⟨tiles, more, rfl, rfl, -⟩ := List.map_eq_append_iff.1 hz.symm
  have hl : Tiled .start tiles ([] ++ layout more last) := hf.left
  refine ⟨String.ofList (layout tiles []), String.ofList (layout more last),
    ⟨⟨.eof, "", Position.start.advance (layout tiles [])⟩, rfl⟩, ?_, ?_⟩
  · rw [← String.toList_inj, he]
    simp [layout]
  · rw [tokenize_eq, String.toList_ofList, hl.of_append.scanFrom_blank (by simp [AllBlank])]

/-- **A token after the program**: what has been written is all the code of the program. -/
lemma compile_of_closing (h : tokenize source = .ok (ts ++ t :: us))
    (hq : run ⟨Goal.program, initial #[] n⟩ ts = .ok q) (hg : q.goals = closing.drop 1) :
    ∃ (a b : String) (e : Terminal .eof), source = a ++ b ∧ tokenize a = .ok (ts ++ [e.1]) ∧
      (kinds ts).getLast? = some .dot ∧ compile a = .ok (q.draft.emit .halt).code.toList := by
  obtain ⟨a, b, e, hab, ha⟩ := exists_source_before h
  obtain ⟨us, e', he, hu, hr⟩ := tokenize_ok ha
  obtain ⟨rfl, -⟩ := List.append_inj' he rfl
  obtain ⟨P, rfl, hP, -, hc⟩ :=
    parseProgram_ok (fresh_initial #[] n) hu hr ((parseProgram_of_closing hq hg e.1 []).1 e.2)
  refine ⟨a, b, e, hab, ha, P.getLast?_kinds_yield, ?_⟩
  rw [Program.Derives.compile ⟨e, ha⟩ hP, hc]
  simp [initial, Draft.onto, Draft.record]

/-! ### A name that is not declared -/

lemma exists_completion (h : Viable (kinds ts)) (hts : ∀ t ∈ ts, t.kind ≠ .eof) (hr : InRange ts) :
    ∃ (P : Program) (us : List Token), P.yield = ts ++ us ∧ InRange P.yield := by
  obtain ⟨P, e, vs, hP⟩ := viable_iff.1 h
  have hp : ts <+: P.yield ++ [e.1] := ⟨vs, hP.symm⟩
  rcases List.prefix_concat_iff.1 hp with rfl | ⟨us, hu⟩
  · exact absurd e.2 (hts e.1 (by simp))
  · set zeros : List Token := us.map fun u => ⟨u.kind, "0", u.position⟩ with hz
    have hk : kinds (ts ++ zeros) = kinds P.yield := by simp [hz, ← hu, Function.comp_def]
    obtain ⟨Q, hQ⟩ := P.relabelled hk
    refine ⟨Q, zeros, hQ, ?_⟩
    rw [hQ, inRange_append]
    refine ⟨hr, fun t ht _ => ?_⟩
    obtain ⟨u, -, rfl⟩ := List.mem_map.1 ht
    exact (by decide : (Text.literalValue? "0").isSome = true)

lemma eq_of_known {names : List String} (hu : Known names us) (hv : Known names vs)
    (ht : t.kind = .identifier) (hn : t.lexeme ∉ names) (h : us ++ t :: us' = vs ++ t :: vs') :
    us = vs := by
  have hm : ∀ ws, Known names ws → t ∉ ws := fun ws hw hm => hn (hw t hm ht)
  -- The longer of the two would hold the unknown name.
  rcases List.append_eq_append_iff.1 h with ⟨ws, rfl, he⟩ | ⟨ws, rfl, he⟩
  · cases ws with
    | nil => simp
    | cons w ws =>
      obtain ⟨rfl, -⟩ := List.cons.inj he
      exact absurd (by simp) (hm _ hv)
  · cases ws with
    | nil => simp
    | cons w ws =>
      obtain ⟨rfl, -⟩ := List.cons.inj he
      exact absurd (by simp) (hm _ hu)

lemma exists_walk_error (hts : ∀ t ∈ ts, t.kind ≠ .eof) (hr : InRange ts)
    (h : run ⟨Goal.program, d⟩ ts = .ok q) (ht : q.step t = .error s)
    (hs : s.fault.stage = .semantic) (hk : t.kind = .identifier) :
    ∃ (P : Program) (us : List Token), P.yield = ts ++ t :: us ∧ InRange P.yield ∧
      P.walk d = .error s := by
  have hrt : InRange [t] := by
    intro y hy hn
    rw [List.mem_singleton.1 hy, hk] at hn
    cases hn
  -- The tokens read so far begin some program, and its tree is walked into the same error.
  obtain ⟨P, us, hP, hrP⟩ := exists_completion (viable_of_step hts h ht (by simp [hs]))
    (by simpa [or_imp, forall_and, hk] using hts) (inRange_append.2 ⟨hr, hrt⟩)
  rw [List.append_assoc, List.singleton_append] at hP
  have hrun : run ⟨Goal.program, d⟩ (P.yield ++ [(default : Terminal .eof).1]) = .error s := by
    rw [hP, List.append_assoc, run_append, h, ok_bind, List.cons_append, run_cons, ht, error_bind]
  rw [P.run_yield] at hrun
  obtain hw | ⟨_, -, hc⟩ := bind_eq_error.1 hrun
  · exact ⟨P, us, hP, hrP, hw⟩
  · cases hc

/-- **A stop at a name that is not declared**: what has been written covers the body up to it. -/
theorem covers_of_undeclared (hd : Fresh d) (hts : ∀ t ∈ ts, t.kind ≠ .eof) (hr : InRange ts)
    (h : run ⟨Goal.program, d⟩ ts = .ok q) (ht : q.step t = .error s)
    (hf : s.fault = .undeclared x) :
    x = t ∧ ∃ c : List Instruction, s.draft.code = d.code ++ c.toArray ∧
      Covers (addressIn (declaredNames ts)) (fromBegin ts) c [] := by
  have hsem : s.fault.stage = .semantic := by rw [hf]; rfl
  have hrd := reading_run hd.1 hts h
  rcases hrd.fault ht hsem with ⟨_, _, _, -, hf', -⟩ | ⟨hf', hm⟩
  · cases hf.symm.trans hf'
  obtain rfl : x = t := Fault.undeclared.inj (hf.symm.trans hf')
  obtain ⟨hnames, hk⟩ := hrd.of_begin hm.begin
  -- From here on the argument is about the tree of a program that begins with these tokens.
  obtain ⟨P, us, hP, hrP, hw⟩ := exists_walk_error hts hr h ht hsem hm.kind
  have hvar : P.variableNames = declaredNames ts := by
    rw [← P.declaredNames_yield, hP, declaredNames_append_of_begin hm.begin]
  have hbody : P.begin.1 :: P.body.yield ++ [P.finish.1, P.dot.1] = fromBegin ts ++ x :: us := by
    rw [← P.fromBegin_yield, hP, fromBegin_append_of_mem hm.begin]
  have hn : ¬ Known P.variableNames P.body.yield := by
    intro hkb
    have hall : Known P.variableNames (fromBegin ts ++ x :: us) := by
      rw [← hbody]
      simp [hkb]
    exact hm.not_mem (hvar ▸ hall x (by simp) hm.kind)
  -- The walk stops at the first unknown name of the body, which has to be `x`.
  obtain ⟨us', y, vs', s', hw', hy, hfy, hky, c, hcode, hcov⟩ := Program.stops hd
    (by rw [hvar, ← hnames]; exact q.draft.symbols.nodup)
    (fun t ht => hrP t (by simp [Program.yield, ht])) hn
  obtain rfl := Except.error.inj (hw.symm.trans hw')
  obtain rfl := Fault.undeclared.inj (hf.symm.trans hfy)
  rw [hvar] at hky hcov
  have hkb : Known (declaredNames ts) (P.begin.1 :: us') := by simpa using hky
  have he : fromBegin ts ++ x :: us = P.begin.1 :: us' ++ x :: (vs' ++ [P.finish.1, P.dot.1]) := by
    rw [← hbody, hy]
    simp
  rw [← eq_of_known hk hkb hm.kind hm.not_mem he] at hcov
  exact ⟨rfl, c, hcode, hcov⟩

/-! ### The code of a failed compilation -/

lemma compileInto_eq_error {f : Fault} (h : (compileInto #[] source).result = .error f) :
    f.stage = .lexical ∧ (compileInto #[] source).code = #[] ∨
    ∃ ts t us n q s, tokenize source = .ok (ts ++ t :: us) ∧
      run ⟨Goal.program, initial #[] n⟩ ts = .ok q ∧ q.step t = .error s ∧ s.fault = f ∧
      (compileInto #[] source).code = s.draft.code := by
  cases ht : tokenize source with
  | error f' =>
    have hc : compileInto #[] source = ⟨.error f', #[], []⟩ := by simp only [compileInto, ht]
    rw [hc] at h ⊢
    obtain rfl := Except.error.inj h
    exact .inl ⟨stage_of_tokenize ht, rfl⟩
  | ok ts =>
    cases hp : parseProgram (initial #[] ts.length) ts with
    | ok d =>
      rw [(compileInto_of_ok ht hp).1] at h
      cases h
    | error s =>
      rw [compileInto_of_error ht hp] at h ⊢
      obtain ⟨us, t, vs, q, he, hq, hs⟩ := run_eq_error (map_eq_error.1 hp)
      exact .inr ⟨us, t, vs, _, q, s, congrArg _ he, hq, hs, Except.error.inj h, rfl⟩

/-- **What a failed compilation leaves behind** is the beginning of the code of a program. It ends
the program only when there is a token after the last `.`, and is then the code of what stands
before; after a name that is declared again it is `start`; and before a name that is not declared it
has the values of the operands and gives values to the variables of the commands that are
complete. -/
theorem compileInto_failed (source : String) (f : Fault)
    (h : (compileInto #[] source).result = .error f) :
    BeginsProgram (compileInto #[] source).code.toList ∧
    (.halt ∈ (compileInto #[] source).code ↔ ∃ t, f = .unexpected (.kind .eof) t) ∧
    (∀ t, f = .unexpected (.kind .eof) t → ∃ (before after : List Token) (a b : String)
        (e : Terminal .eof), tokenize source = .ok (before ++ t :: after) ∧ t.kind ≠ .eof ∧
      (kinds before).getLast? = some .dot ∧ source = a ++ b ∧ tokenize a = .ok (before ++ [e.1]) ∧
      compile a = .ok (compileInto #[] source).code.toList) ∧
    (∀ t, f = .redeclared t → (compileInto #[] source).code.toList = [.start]) ∧
    (∀ t, f = .undeclared t → ∃ before after : List Token,
      tokenize source = .ok (before ++ t :: after) ∧
      (compileInto #[] source).code.toList.filter Instruction.isValue =
        (operands false (fromBegin before)).map (operandCode (addressIn (declaredNames before))) ∧
      (compileInto #[] source).code.toList.filter Instruction.isTransfer =
        transfers (addressIn (declaredNames before)) (fromBegin before)) := by
  rcases compileInto_eq_error h with ⟨hs, hc⟩ | ⟨ts, t, us, n, q, s, ht, hq, hstep, rfl, hc⟩
  -- The scanner failed: nothing is written, and the fault is none of the parser's.
  · rw [hc]
    refine ⟨beginsProgram_start.of_prefix (by simp), ⟨by simp, ?_⟩, ?_, ?_, ?_⟩
    · rintro ⟨t, rfl⟩
      cases hs
    all_goals
      rintro t rfl
      cases hs
  -- The parser failed at `t`.
  · have hp := printable_of_tokenize ht
    have hts : ∀ t ∈ ts, t.kind ≠ .eof := fun t ht => (hp t ht).kind_ne_eof
    have hun := (unhalted_run (by simp [initial, Draft.onto, Draft.record]) hts hq).error hstep
    rw [hc]
    refine ⟨beginsProgram_of_error hp hq hstep, hun.1, ?_, ?_, ?_⟩
    -- Text after the final dot: without it the source compiles.
    · intro x hx
      obtain ⟨rfl, hk, hg, hd⟩ := hun.2 x hx
      obtain ⟨a, b, e, hab, ha, hlast, hcode⟩ := compile_of_closing ht hq hg
      exact ⟨ts, us, a, b, e, ht, hk, hlast, hab, ha, by rw [hcode, hd]⟩
    -- A name declared twice is reported before the cells are allocated.
    · intro x hx
      rw [code_of_redeclared rfl hts hq hstep hx]
      rfl
    -- An undeclared name in the body.
    · intro x hx
      obtain ⟨rfl, c, hcode, hcov⟩ := covers_of_undeclared (fresh_initial _ _) hts
        (fun t ht => (hp t ht).2) hq hstep hx
      have hlist : s.draft.code.toList = c := by
        rw [hcode]
        simp [initial, Draft.onto, Draft.record]
      rw [hlist]
      exact ⟨ts, us, ht, by simpa [operands] using hcov.values.symm,
        by simpa [transfers] using hcov.transfers.symm⟩

/-- A text that stops at `b` in an assignment, after a command that is complete. -/
def unknownName : String := "program p;var a:integer;begin read(a);a:=a+2*b end."

theorem compileInto_failed_unknownName :
    (compileInto #[] unknownName).result = .error (.undeclared ⟨.identifier, "b", ⟨1, 46⟩⟩) ∧
      BeginsProgram (compileInto #[] unknownName).code.toList ∧
      ∃ before after : List Token,
        tokenize unknownName = .ok (before ++ ⟨.identifier, "b", ⟨1, 46⟩⟩ :: after) ∧
        (compileInto #[] unknownName).code.toList.filter Instruction.isValue =
          (operands false (fromBegin before)).map
            (operandCode (addressIn (declaredNames before))) ∧
        (compileInto #[] unknownName).code.toList.filter Instruction.isTransfer =
          transfers (addressIn (declaredNames before)) (fromBegin before) := by
  have hf : compile unknownName = .error (.undeclared ⟨.identifier, "b", ⟨1, 46⟩⟩) := by
    decide +kernel
  rw [compile, map_eq_error] at hf
  obtain ⟨hb, -, -, -, hu⟩ := compileInto_failed unknownName _ hf
  exact ⟨hf, hb, hu _ rfl⟩

example : (compileInto #[] unknownName).code.toList =
    [.start, .allocate 1, .read, .store 0, .load 0, .constant 2] := by decide +kernel

end Grammar

end OnePass
