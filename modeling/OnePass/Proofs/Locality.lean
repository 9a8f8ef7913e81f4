import OnePass.Proofs.SharedSink
import OnePass.Proofs.Stages

/-!
A parse that stops has not looked further. What it reports, what it has emitted and what it has
recorded depend on the tokens up to the one it stops at, and on no token after it.
-/

namespace OnePass.Grammar

open Parse

/-- The last token that a fault depends on is at `c`. For a name that is declared again it is the
`;` at the end of its group, and for any other fault the token that is reported. -/
inductive DecidedAt (ts : List Token) : Fault → Nat → Prop
  | unexpected {w : Wanted} {t : Token} {c : Nat} (h : ts[c]? = some t) :
      DecidedAt ts (.unexpected w t) c
  | undeclared {t : Token} {c : Nat} (h : ts[c]? = some t) : DecidedAt ts (.undeclared t) c
  | redeclared {x s : Token} {i c : Nat} (hx : ts[i]? = some x) (hi : i < c)
      (hs : ts[c]? = some s) (hk : s.kind = .semicolon)
      (hn : .semicolon ∉ kinds ((ts.take c).drop (i + 1))) : DecidedAt ts (.redeclared x) c

variable {ts us vs : List Token} {t : Token} {c i j : Nat} {d : Draft} {f : Fault} {p q : Parse}
  {s : Stop} {source : String}

/-! ### There is one such token -/

lemma index_unique (hn : ts.Nodup) (hi : ts[i]? = some t) (hj : ts[j]? = some t) : i = j := by
  have hl : i < ts.length := (List.getElem?_eq_some_iff.1 hi).1
  exact (List.getElem?_inj hl hn).1 (hi.trans hj.symm)

lemma mem_drop_take (h : ts[j]? = some t) (hi : i < j) (hc : j < c) :
    t ∈ (ts.take c).drop (i + 1) := by
  refine List.mem_of_getElem? (i := j - (i + 1)) ?_
  rw [List.getElem?_drop, List.getElem?_take_of_lt (by omega), ← h]
  congr 1
  omega

lemma DecidedAt.unique (hn : ts.Nodup) (hi : DecidedAt ts f i) (hj : DecidedAt ts f j) : i = j := by
  cases hi with
  | unexpected hi =>
    cases hj with
    | unexpected hj => exact index_unique hn hi hj
  | undeclared hi =>
    cases hj with
    | undeclared hj => exact index_unique hn hi hj
  | @redeclared x s k _ hx hki hs hks hns =>
    cases hj with
    | @redeclared _ s' k' _ hx' hkj hs' hks' hns' =>
      obtain rfl := index_unique hn hx hx'
      -- The earlier of the two would be a `;` before the later one.
      rcases Nat.lt_trichotomy i j with hlt | rfl | hlt
      · exact absurd (List.mem_map.2 ⟨s, mem_drop_take hs hki hlt, hks⟩) hns'
      · rfl
      · exact absurd (List.mem_map.2 ⟨s', mem_drop_take hs' hkj hlt, hks'⟩) hns

/-! ### The parse stops there -/

lemma decidedAt_of_step (hd : d.symbols.names = []) (hu : ∀ t ∈ us, t.kind ≠ .eof)
    (hr : InRange [t]) (hq : run ⟨Goal.program, d⟩ us = .ok q) (hs : q.step t = .error s) :
    DecidedAt (us ++ t :: vs) s.fault us.length := by
  have hat : (us ++ t :: vs)[us.length]? = some t := by simp
  have hlex : s.fault.stage ≠ .lexical := by
    refine stage_ne_lexical (p := q) hr ?_
    rw [run_cons, hs, error_bind]
  cases hf : s.fault.stage with
  | lexical => exact absurd hf hlex
  | syntactic =>
    obtain ⟨f, d'⟩ := s
    cases f with
    | unexpected w t' =>
      obtain ⟨rfl, -⟩ := settle_unexpected hs
      exact .unexpected hat
    | _ => cases hf
  | semantic =>
    -- A redeclaration is found where its group closes, later than the name it reports.
    rcases (reading_run hd hu hq).fault hs hf with ⟨pre, x, mid, rfl, he, hx, -⟩ | ⟨he, -⟩
    · rw [he]
      have hp : (pre ++ x :: mid ++ t :: vs)[pre.length]? = some x := by simp
      refine .redeclared hp (by simp) hat hx.closed ?_
      rw [List.take_left, List.drop_append, List.drop_of_length_le (by omega)]
      simpa using hx.within
    · rw [he]
      exact .undeclared hat

lemma run_error_of_take (hq : p.run us = .ok q) (hs : q.step t = .error s)
    (h : ts.take (us.length + 1) = us ++ [t]) : p.run ts = .error s := by
  rw [← List.take_append_drop (us.length + 1) ts, h, List.append_assoc, run_append, hq, ok_bind,
    List.singleton_append, run_cons, hs, error_bind]

lemma exists_stop (sink : Array Instruction) (ht : tokenize source = .ok ts)
    (hf : (compileInto sink source).result = .error f) :
    ∃ us t vs q s, ts = us ++ t :: vs ∧ run ⟨Goal.program, .onto #[]⟩ us = .ok q ∧
      q.step t = .error s ∧ s.fault = f ∧ DecidedAt ts f us.length := by
  cases hp : parseProgram (.onto #[]) ts with
  | ok d =>
    rw [compileInto_of_tokenize sink ht, hp] at hf
    cases hf
  | error s =>
    rw [compileInto_of_tokenize sink ht, hp] at hf
    obtain rfl : s.fault = f := Except.error.inj hf
    obtain ⟨us, t, vs, q, rfl, hq, hs⟩ := run_eq_error (map_eq_error.1 hp)
    obtain ⟨us', e, he, hu, hr⟩ := tokenize_ok ht
    have hr' : InRange (us ++ t :: vs) := he ▸ hr.append_eof e
    refine ⟨us, t, vs, q, s, rfl, hq, hs, rfl, decidedAt_of_step rfl ?_ ?_ hq hs⟩
    · exact fun x hx => hu x ((prefix_of_append_eq he.symm).subset hx)
    · intro x hx
      exact hr' x (by simp [List.mem_singleton.1 hx])

/-- **Failing fast**: a compilation that fails is decided by the tokens up to one of them. Any text
that begins with these tokens fails with the same fault, after the same code and the same events,
but for the number of tokens that have been scanned. -/
theorem compileInto_fails_fast (sink : Array Instruction) (source : String) (ts : List Token)
    (f : Fault) (ht : tokenize source = .ok ts)
    (hf : (compileInto sink source).result = .error f) :
    (∃! c, DecidedAt ts f c) ∧
    ∀ c, DecidedAt ts f c → ∃ records : List Event,
      (compileInto sink source).events = .scanned ts.length :: records ∧
      ∀ source' ts', tokenize source' = .ok ts' → ts'.take (c + 1) = ts.take (c + 1) →
        compileInto sink source' =
          ⟨.error f, (compileInto sink source).code, .scanned ts'.length :: records⟩ := by
  obtain ⟨us, t, vs, q, s, rfl, hq, hs, rfl, hd⟩ := exists_stop sink ht hf
  have hn := nodup_of_tokenize ht
  refine ⟨⟨us.length, hd, fun c hc => hc.unique hn hd⟩, fun c hc => ?_⟩
  obtain rfl : c = us.length := hc.unique hn hd
  have htake : (us ++ t :: vs).take (us.length + 1) = us ++ [t] := by
    rw [List.take_length_add_append]
    rfl
  -- The parser never looks past the token it stops at.
  have hstop : ∀ source' ts', tokenize source' = .ok ts' → ts'.take (us.length + 1) = us ++ [t] →
      compileInto sink source' = ⟨.error s.fault, sink ++ s.draft.code,
        .scanned ts'.length :: s.draft.events.toList⟩ := by
    intro source' ts' ht' h
    have hp : parseProgram (.onto #[]) ts' = .error s :=
      map_eq_error.2 (run_error_of_take hq hs h)
    rw [compileInto_of_tokenize sink ht', hp]
  have hsource := hstop source _ ht htake
  refine ⟨s.draft.events.toList, by rw [hsource], fun source' ts' ht' h => ?_⟩
  rw [hsource]
  exact hstop source' ts' ht' (h.trans htake)

/-- A group that declares a name twice, and the rest of a program. -/
def declaredTwice : String := "program p;var a,a:integer;begin end."

/-- The same group, and after it nothing that belongs to a program. -/
def brokenOff : String := "program p;var a,a:integer;)7"

/-- The tokens of both texts up to the end of the group. -/
def declaredTwiceTokens : List Token :=
  [⟨.programKw, "program", ⟨1, 1⟩⟩, ⟨.identifier, "p", ⟨1, 9⟩⟩, ⟨.semicolon, ";", ⟨1, 10⟩⟩,
    ⟨.varKw, "var", ⟨1, 11⟩⟩, ⟨.identifier, "a", ⟨1, 15⟩⟩, ⟨.comma, ",", ⟨1, 16⟩⟩,
    ⟨.identifier, "a", ⟨1, 17⟩⟩, ⟨.colon, ":", ⟨1, 18⟩⟩, ⟨.integerKw, "integer", ⟨1, 19⟩⟩,
    ⟨.semicolon, ";", ⟨1, 26⟩⟩]

theorem compileInto_fails_fast_declaredTwice :
    (compileInto #[] declaredTwice).result = .error (.redeclared ⟨.identifier, "a", ⟨1, 17⟩⟩) ∧
      ∃ rest rest' records, tokenize declaredTwice = .ok (declaredTwiceTokens ++ rest) ∧
        tokenize brokenOff = .ok (declaredTwiceTokens ++ rest') ∧ rest ≠ rest' ∧
        (compileInto #[] declaredTwice).events = .scanned 14 :: records ∧
        compileInto #[] brokenOff = ⟨.error (.redeclared ⟨.identifier, "a", ⟨1, 17⟩⟩),
          (compileInto #[] declaredTwice).code, .scanned 13 :: records⟩ := by
  have ht : tokenize declaredTwice = .ok (declaredTwiceTokens ++
      [⟨.beginKw, "begin", ⟨1, 27⟩⟩, ⟨.endKw, "end", ⟨1, 33⟩⟩, ⟨.dot, ".", ⟨1, 36⟩⟩,
        ⟨.eof, "", ⟨1, 37⟩⟩]) := by decide +kernel
  have ht' : tokenize brokenOff = .ok (declaredTwiceTokens ++
      [⟨.rightParen, ")", ⟨1, 27⟩⟩, ⟨.number, "7", ⟨1, 28⟩⟩, ⟨.eof, "", ⟨1, 29⟩⟩]) := by
    decide +kernel
  have hf : (compileInto #[] declaredTwice).result =
      .error (.redeclared ⟨.identifier, "a", ⟨1, 17⟩⟩) := by decide +kernel
  obtain ⟨records, he, h⟩ := (compileInto_fails_fast #[] declaredTwice _ _ ht hf).2 9
    (.redeclared (i := 6) rfl (by decide) rfl rfl (by decide))
  exact ⟨hf, _, _, records, ht, ht', by decide, he, h brokenOff _ ht' rfl⟩

end OnePass.Grammar
