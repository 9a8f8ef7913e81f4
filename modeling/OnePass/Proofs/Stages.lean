import OnePass.Proofs.LexicalErrors
import OnePass.Proofs.Translation

/-!
Which part of the compiler reports a fault. The scanner reports lexical faults and no others. The
parser checks the range of literals once more, but the scanner has let none pass that is too large.
-/

namespace OnePass

lemma stage_of_tokenize {source : String} {f : Fault} (h : tokenize source = .error f) :
    f.stage = .lexical := by
  obtain ⟨a, b, hb⟩ := exists_breaksAt h
  obtain ⟨f', hf, -⟩ := hb.exists_fails
  obtain rfl := Except.error.inj (h.symm.trans (hb.tokenize_eq_error hf))
  generalize b.toList = text at hf
  cases hf <;> rfl

namespace Grammar

open Parse

variable {ts : List Token} {t : Token} {d : Draft} {s : Stop}

/-! ### Faults of names and literals -/

lemma declareAll_stage (h : d.declareAll ts = .error s) : s.fault.stage = .semantic := by
  obtain ⟨_, x, _, _, hf, -⟩ := Draft.declareAll_eq_error h
  rw [hf]
  rfl

lemma addressOf_stage (h : d.addressOf t = .error s) : s.fault.stage = .semantic := by
  obtain ⟨-, rfl⟩ := Draft.addressOf_eq_error h
  rfl

lemma valueOf_stage (h : d.valueOf t = .error s) : s.fault.stage = .lexical := by
  obtain ⟨-, rfl⟩ := Draft.valueOf_eq_error h
  rfl

/-! ### Lexical faults of the parser -/

lemma meet_lexical {g : Goal} (h : g.meet d t = .error s) (hs : s.fault.stage = .lexical) :
    t.kind = .number ∧ Text.literalValue? t.lexeme = none := by
  obtain ⟨w, rfl⟩ | rfl | ⟨hk, h⟩ | ⟨group, h⟩ := meet_eq_error h
  · cases hs
  · cases hs
  · exact ⟨hk, (Draft.valueOf_eq_error h).1⟩
  · simp [declareAll_stage h] at hs

lemma settle_lexical {gs : List Goal} (h : settle t gs d = .error s)
    (hs : s.fault.stage = .lexical) :
    t.kind = .number ∧ Text.literalValue? t.lexeme = none := by
  induction gs, d, h using settle_error_induction with
  | stop g gs d _ hr => exact meet_lexical hr hs
  | pass g gs d _ d' _ hr ih => exact ih

lemma stage_ne_lexical {p : Parse} (hr : InRange ts) (h : p.run ts = .error s) :
    s.fault.stage ≠ .lexical := by
  intro hs
  obtain ⟨us, t, vs, q, rfl, -, ht⟩ := run_eq_error h
  obtain ⟨hk, hv⟩ := settle_lexical ht hs
  have hi := hr t (by simp) hk
  simp [hv] at hi

/-- **A literal that has been scanned** is in range, and its constant is emitted. -/
lemma meetFactor_of_number {source : String} (h : tokenize source = .ok ts) (ht : t ∈ ts)
    (hk : t.kind = .number) (d : Draft) :
    placeValue t.lexeme.toList ≤ 2 ^ 63 - 1 ∧ Goal.meetFactor d t =
      .ok (.take (d.emit (.constant (placeValue t.lexeme.toList))) []) := by
  obtain ⟨us, e, rfl, -, hr⟩ := tokenize_ok h
  have hv := hr.append_eof e t ht hk
  have hle := isSome_literalValue?.1 hv
  rw [decimalValue_eq] at hle
  refine ⟨hle, ?_⟩
  rw [Goal.meetFactor, hk, ← decimalValue_eq]
  simp only [valueOf_of_isSome hv, ok_bind, pure_eq_ok]

/-- **Lexical faults are the scanner's.** A compilation ends with one just when the text cannot be
scanned, whatever else is wrong with it; then nothing has been emitted and nothing recorded. The
parser has none to report about the tokens of a text, since each of its literals is in range. -/
theorem compileInto_lexical_iff (sink : Array Instruction) (source : String) :
    (∀ f, (compileInto sink source).result = .error f ∧ f.stage = .lexical ↔
      tokenize source = .error f) ∧
    (∀ f, tokenize source = .error f → compileInto sink source = ⟨.error f, sink, []⟩) ∧
    ∀ ts, tokenize source = .ok ts →
      (∀ d s, parseProgram d ts = .error s → s.fault.stage ≠ .lexical) ∧
      ∀ t ∈ ts, t.kind = .number → ∀ d, placeValue t.lexeme.toList ≤ 2 ^ 63 - 1 ∧
        Goal.meetFactor d t =
          .ok (.take (d.emit (.constant (placeValue t.lexeme.toList))) []) := by
  have herror : ∀ f, tokenize source = .error f →
      compileInto sink source = ⟨.error f, sink, []⟩ := by
    intro f hf
    simp only [compileInto, hf]
  have hparser : ∀ ts, tokenize source = .ok ts → ∀ d s, parseProgram d ts = .error s →
      s.fault.stage ≠ .lexical := by
    intro ts ht d s hs
    obtain ⟨us, e, rfl, -, hr⟩ := tokenize_ok ht
    exact stage_ne_lexical (hr.append_eof e) (map_eq_error.1 hs)
  refine ⟨fun f => ⟨?_, fun hf => ?_⟩, herror, fun ts ht => ⟨hparser ts ht, ?_⟩⟩
  -- A lexical fault cannot come from the parser, so the scan has failed with it.
  · rintro ⟨hf, hs⟩
    cases ht : tokenize source with
    | error f' =>
      rw [herror f' ht] at hf
      rw [Except.error.inj hf]
    | ok ts =>
      cases hp : parseProgram (initial sink ts.length) ts with
      | ok d =>
        rw [(compileInto_of_ok ht hp).1] at hf
        cases hf
      | error s =>
        rw [compileInto_of_error ht hp] at hf
        obtain rfl : s.fault = f := Except.error.inj hf
        exact absurd hs (hparser ts ht _ s hp)
  · rw [herror f hf]
    exact ⟨rfl, stage_of_tokenize hf⟩
  · exact fun t htm hk d => meetFactor_of_number ht htm hk d

/-- No program begins with `)`, yet the character after it is reported. -/
example : (compileInto #[] ") $").result = .error (.strayCharacter ⟨1, 3⟩ '$') := by decide

end Grammar

end OnePass
