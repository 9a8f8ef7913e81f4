import OnePass.Proofs.Translation

/-!
What is in the code when a parse stops: the last instruction only after the last `.`, and before
the program's `begin` only what the declarations have to do with.
-/

namespace OnePass

namespace Draft

variable {d d' : Draft} {ts : List Token} {s : Stop}

lemma code_of_declareAll (h : d.declareAll ts = .ok d') : d'.code = d.code := by
  obtain ⟨d₁, h₁, -, -, hc⟩ := declareAll_of_nodup (nodup_of_declareAll h)
  rwa [Except.ok.inj (h.symm.trans h₁)]

lemma code_of_declareAll_error (h : d.declareAll ts = .error s) : s.draft.code = d.code := by
  induction ts generalizing d with
  | nil => cases h
  | cons t ts ih =>
    rw [declareAll, List.foldlM_cons] at h
    by_cases ht : t.lexeme ∈ d.symbols.names
    · rw [declare_of_mem ht] at h
      cases h
      rfl
    · obtain ⟨d₁, h₁, -, -, hc⟩ := declare_of_not_mem ht
      rw [h₁] at h
      exact (ih h).trans hc

end Draft

namespace Grammar

open Parse

/-! ### The last instruction -/

/-- A goal that has nothing to do with the end of the program. -/
def Inner (g : Goal) : Prop := g ≠ .emit .halt ∧ g ≠ .token .eof

/-- What such a goal may answer: it does not end the code, leaves goals of its sort, and when it
stops it has written nothing and does not ask for the end of input. -/
def InnerReply (d : Draft) : Except Stop Reply → Prop
  | .ok (.pass d') => .halt ∈ d'.code → .halt ∈ d.code
  | .ok (.take d' new) => (.halt ∈ d'.code → .halt ∈ d.code) ∧ ∀ g ∈ new, Inner g
  | .error s => s.draft.code = d.code ∧ ∀ t, s.fault ≠ .unexpected (.kind .eof) t

variable {g : Goal} {gs us : List Goal} {d : Draft} {t : Token} {ts : List Token} {p q : Parse}
  {s : Stop}

lemma innerReply_addressOf {f : Nat → Reply} (hf : ∀ a, InnerReply d (.ok (f a))) :
    InnerReply d (d.addressOf t >>= fun a => pure (f a)) := by
  cases h : d.addressOf t with
  | ok a => exact hf a
  | error s =>
    obtain ⟨-, rfl⟩ := Draft.addressOf_eq_error h
    exact ⟨rfl, by simp⟩

lemma inner_of_left (h : Goal.Left d g) : Inner g := by
  cases g with
  | token k =>
    refine ⟨by simp, fun hk => ?_⟩
    cases hk
    simp [Goal.Left] at h
  | emit i =>
    refine ⟨fun hi => ?_, by simp⟩
    cases hi
    simp [Goal.Left] at h
  | _ => simp [Inner]

lemma innerReply_takes {k : Kind} {m : Goal.Take} (h : Goal.Takes k g m) (d : Draft)
    (t : Token) : InnerReply d (m.on d t) := by
  have hn : ∀ a, ∀ x ∈ m.goals d t a, Inner x := fun a x hx => inner_of_left (h.left d t a x hx)
  cases m with
  | go new | name group => exact ⟨id, hn 0⟩
  | store new => exact innerReply_addressOf fun a => ⟨id, hn a⟩
  | load => exact innerReply_addressOf fun a => ⟨by simp [Draft.emit], by simp⟩
  | constant =>
    simp only [Goal.Take.on]
    cases hv : d.valueOf t with
    | ok v => exact ⟨by simp [Draft.emit], by simp⟩
    | error s =>
      obtain ⟨-, rfl⟩ := Draft.valueOf_eq_error hv
      exact ⟨rfl, by simp⟩
  | loop => exact ⟨by simp [Draft.emit, Draft.newLabel, Draft.record], hn 0⟩
  | declare group =>
    simp only [Goal.Take.on]
    cases hd : d.declareAll group with
    | ok d' => exact ⟨by rw [Draft.code_of_declareAll hd]; exact id, hn 0⟩
    | error s =>
      obtain ⟨_, _, _, _, hf, -⟩ := Draft.declareAll_eq_error hd
      exact ⟨Draft.code_of_declareAll_error hd, by simp [hf]⟩

lemma innerReply_meet (d : Draft) (t : Token) (hg : Inner g) : InnerReply d (g.meet d t) := by
  rcases g.meet_cases t with ⟨m, hm, he⟩ | ⟨-, he⟩
  · rw [he]
    exact innerReply_takes hm d t
  · rw [he]
    -- Only two goals have to do with the end of the program, and they are left out.
    cases g with
    | emit i =>
      have hi : ¬ Instruction.halt = i := fun h => hg.1 (h ▸ rfl)
      simp [Goal.otherwise, Goal.Skip.on, InnerReply, Draft.emit, hi]
    | token k =>
      have hk : k ≠ .eof := fun h => hg.2 (h ▸ rfl)
      exact ⟨rfl, by simpa using hk⟩
    | _ => simp [Goal.otherwise, Goal.Skip.on, InnerReply, Draft.emit, Goal.wants, Draft.fail]

lemma code_of_meet_error (h : g.meet d t = .error s) : s.draft.code = d.code := by
  obtain ⟨w, rfl⟩ | rfl | ⟨-, h⟩ | ⟨group, h⟩ := meet_eq_error h
  · rfl
  · rfl
  · rw [(Draft.valueOf_eq_error h).2]
  · exact Draft.code_of_declareAll_error h

/-- The goals that end a program. -/
def closing : List Goal := [.token .dot, .emit .halt, .token .eof]

/-- The program is not at its end, or its last `.` has just been read; either way its code is not
complete. -/
structure Unhalted (p : Parse) : Prop where
  goals : (∃ us, p.goals = us ++ closing ∧ ∀ g ∈ us, Inner g) ∨ p.goals = closing.drop 1
  code : .halt ∉ p.draft.code

lemma unhalted_settle (hu : ∀ g ∈ us, Inner g) (hd : .halt ∉ d.code)
    (h : settle t (us ++ closing) d = .ok p) : Unhalted p := by
  induction us generalizing d with
  | nil =>
    rw [List.nil_append, closing, settle_token] at h
    split at h <;> cases h
    exact ⟨.inr rfl, hd⟩
  | cons g us ih =>
    rw [List.forall_mem_cons] at hu
    have hr := innerReply_meet d t hu.1
    rw [List.cons_append, settle_cons] at h
    obtain ⟨r, he, h⟩ := bind_eq_ok.1 h
    rw [he] at hr
    cases r with
    | pass d₁ => exact ih hu.2 (fun hm => hd (hr hm)) h
    | take d₁ new =>
      cases h
      refine ⟨.inl ⟨new ++ us, by simp, ?_⟩, fun hm => hd (hr.1 hm)⟩
      exact List.forall_mem_append.2 ⟨hr.2, hu.2⟩

lemma settle_closing_error (hu : ∀ g ∈ us, Inner g) (hd : .halt ∉ d.code)
    (h : settle t (us ++ closing) d = .error s) :
    .halt ∉ s.draft.code ∧ ∀ x, s.fault ≠ .unexpected (.kind .eof) x := by
  induction us generalizing d with
  | nil =>
    rw [List.nil_append, closing, settle_token] at h
    split at h <;> cases h
    exact ⟨hd, by simp⟩
  | cons g us ih =>
    rw [List.forall_mem_cons] at hu
    have hr := innerReply_meet d t hu.1
    rw [List.cons_append, settle_cons] at h
    obtain he | ⟨r, he, h⟩ := bind_eq_error.1 h
    · rw [he] at hr
      exact ⟨by rwa [hr.1], hr.2⟩
    · rw [he] at hr
      cases r with
      | pass d₁ => exact ih hu.2 (fun hm => hd (hr hm)) h
      | take d₁ new => cases h

lemma settle_halt (t : Token) (d : Draft) :
    settle t (closing.drop 1) d = if t.kind = .eof then .ok ⟨[], d.emit .halt⟩
      else .error ⟨.unexpected (.kind .eof) t, d.emit .halt⟩ := by
  have hs : settle t (closing.drop 1) d = settle t [.token .eof] (d.emit .halt) := rfl
  rw [hs, settle_token]

/-- **Until the end of input the code is not complete.** -/
theorem unhalted_run (hd : .halt ∉ d.code) (hts : ∀ t ∈ ts, t.kind ≠ .eof)
    (h : run ⟨Goal.program, d⟩ ts = .ok q) : Unhalted q := by
  induction ts using List.reverseRecOn generalizing q with
  | nil =>
    cases h
    exact ⟨.inl ⟨Goal.program.take 9, rfl, by simp [Goal.program, Inner]⟩, hd⟩
  | append_singleton ts t ih =>
    rw [List.forall_mem_append] at hts
    rw [run_append] at h
    obtain ⟨p, hp, h⟩ := bind_eq_ok.1 h
    obtain ⟨q', hq, h⟩ := bind_eq_ok.1 h
    cases h
    obtain ⟨⟨us, hg, hu⟩ | hg, hc⟩ := ih hts.1 hp
    · rw [Parse.step, hg] at hq
      exact unhalted_settle hu hc hq
    · rw [Parse.step, hg, settle_halt, if_neg (hts.2 t (by simp))] at hq
      cases hq

/-- **The last instruction** is written just when nothing but the end of input is wanted. -/
theorem Unhalted.error (hp : Unhalted p) (h : p.step t = .error s) :
    (.halt ∈ s.draft.code ↔ ∃ x, s.fault = .unexpected (.kind .eof) x) ∧
    ∀ x, s.fault = .unexpected (.kind .eof) x →
      x = t ∧ x.kind ≠ .eof ∧ p.goals = closing.drop 1 ∧ s.draft = p.draft.emit .halt := by
  obtain ⟨⟨us, hg, hu⟩ | hg, hc⟩ := hp
  · rw [Parse.step, hg] at h
    obtain ⟨hh, hf⟩ := settle_closing_error hu hc h
    exact ⟨iff_of_false hh (not_exists.2 hf), fun x hx => absurd hx (hf x)⟩
  · rw [Parse.step, hg, settle_halt] at h
    split at h
    · cases h
    · rename_i ht
      cases h
      refine ⟨iff_of_true (by simp [Draft.emit]) ⟨t, rfl⟩, fun x hx => ?_⟩
      cases hx
      exact ⟨rfl, ht, hg, rfl⟩

lemma parseProgram_of_closing (hq : run ⟨Goal.program, d⟩ ts = .ok q)
    (hg : q.goals = closing.drop 1) (t : Token) (us : List Token) :
    (t.kind = .eof → parseProgram d (ts ++ [t]) = .ok (q.draft.emit .halt)) ∧
    (t.kind ≠ .eof → parseProgram d (ts ++ t :: us) =
      .error ⟨.unexpected (.kind .eof) t, q.draft.emit .halt⟩) := by
  have hs : ∀ vs, parseProgram d (ts ++ t :: vs) =
      (settle t (closing.drop 1) q.draft >>= fun p => run p vs).map Parse.draft := by
    intro vs
    rw [parseProgram, run_append, hq, ok_bind, run_cons, Parse.step, hg]
  constructor
  · intro ht
    rw [hs, settle_halt, if_pos ht]
    rfl
  · intro ht
    rw [hs, settle_halt, if_neg ht]
    rfl

/-! ### Before the program's `begin` -/

lemma code_of_naming {group : List Token} (hn : Naming group gs) (ht : t.kind ≠ .beginKw)
    (h : settle t (gs ++ Goal.program.drop 5) d = .ok q) : q.draft.code = d.code := by
  obtain ⟨gs', -, -, rfl⟩ | ⟨gs', -, -, rfl⟩ | ⟨d', -, hd, rfl⟩ | ⟨-, hb, -⟩ := hn.settle_ok h
  · rfl
  · rfl
  · exact Draft.code_of_declareAll hd
  · exact absurd hb ht

lemma code_of_naming_error {group : List Token} (hn : Naming group gs)
    (h : settle t (gs ++ Goal.program.drop 5) d = .error s) :
    s.draft.code = d.code ∨
      gs = [.moreGroups] ∧ s.draft.code = d.code.push (.allocate d.symbols.size) := by
  obtain ⟨w, rfl⟩ | ⟨-, hd⟩ | ⟨hg, rfl⟩ := hn.settle_error h
  · exact .inl rfl
  · exact .inl (Draft.code_of_declareAll_error hd)
  · exact .inr ⟨hg, rfl⟩

lemma code_of_opening {todo : List Kind}
    (hk : kinds ts ++ todo = [.programKw, .identifier, .semicolon]) (ht : t.kind ≠ .beginKw)
    (h : settle t (todo.map Goal.token ++ Goal.program.drop 3) d = .ok q) :
    q.draft.code = if t.kind = .varKw then d.code.push .start else d.code := by
  cases todo with
  | nil =>
    rw [List.map_nil, List.nil_append, settle_declarations] at h
    by_cases hv : t.kind = .varKw
    · rw [if_pos hv] at h
      cases h
      rw [if_pos hv]
      rfl
    · rw [if_neg hv, program_drop, settle_token, if_neg ht] at h
      cases h
  | cons k todo =>
    have hkv : k ≠ .varKw := by
      rintro rfl
      have hm : Kind.varKw ∈ [.programKw, .identifier, .semicolon] := by
        rw [← hk]
        simp
      exact absurd hm (by decide)
    rw [List.map_cons, List.cons_append, settle_token] at h
    by_cases htk : t.kind = k
    · rw [if_pos htk] at h
      cases h
      rw [htk, if_neg hkv]
    · rw [if_neg htk] at h
      cases h

lemma code_of_run (hd : d.symbols.names = []) (hts : ∀ t ∈ ts, t.kind ≠ .eof)
    (hb : .beginKw ∉ kinds ts) (h : run ⟨Goal.program, d⟩ ts = .ok q) :
    q.draft.code = if .varKw ∈ kinds ts then d.code.push .start else d.code := by
  induction ts using List.reverseRecOn generalizing q with
  | nil =>
    cases h
    rfl
  | append_singleton ts t ih =>
    rw [List.forall_mem_append] at hts
    rw [kinds, List.map_append, List.mem_append, not_or] at hb
    have ht : t.kind ≠ .beginKw := fun ht => hb.2 (by simp [ht])
    rw [run_append] at h
    obtain ⟨p, hp, h⟩ := bind_eq_ok.1 h
    obtain ⟨q', hq, h⟩ := bind_eq_ok.1 h
    cases h
    have hc := ih hts.1 hb.1 hp
    rw [Parse.step] at hq
    cases reading_run hd hts.1 hp with
    | opening todo hk hg hs =>
      -- Only `var` itself writes here: it lets the parser past `.start`.
      have hv : .varKw ∉ kinds ts := not_mem_of_opening hk (by decide)
      rw [if_neg hv] at hc
      rw [hg] at hq
      rw [code_of_opening hk ht hq, hc]
      have hm : .varKw ∈ kinds (ts ++ [t]) ↔ t.kind = .varKw := by simp [hv, eq_comm]
      simp only [hm]
    | naming closed since goals he hv hb' hc' hn hg hs =>
      -- The cells are allocated at `begin`, which has not come.
      have hv' : .varKw ∈ kinds ts := by
        rw [he, kinds, List.map_append]
        exact List.mem_append_left _ hv
      rw [hg] at hq
      rw [code_of_naming hn ht hq, hc, if_pos hv']
      simp [hv']
    | body hbegin => exact absurd hbegin hb.1

/-- **A stop before the program's `begin`** leaves `start` at most, unless the declarations are
complete. -/
theorem code_of_error (hd : d.symbols.names = []) (hts : ∀ t ∈ ts, t.kind ≠ .eof)
    (hb : .beginKw ∉ kinds ts) (h : run ⟨Goal.program, d⟩ ts = .ok q) (ht : q.step t = .error s) :
    s.draft.code = d.code ∨ s.draft.code = d.code.push .start ∨
      q.goals = .moreGroups :: Goal.program.drop 5 ∧
        s.draft.code = q.draft.code.push (.allocate q.draft.symbols.size) := by
  have hc := code_of_run hd hts hb h
  rw [Parse.step] at ht
  cases reading_run hd hts h with
  | opening todo hk hg hs =>
    rw [if_neg (not_mem_of_opening hk (by decide))] at hc
    rw [hg] at ht
    cases todo with
    | nil =>
      -- `.start` is written before the token that is neither `var` nor `begin` is refused.
      rw [List.map_nil, List.nil_append, settle_declarations] at ht
      split at ht
      · cases ht
      · rw [program_drop, settle_token] at ht
        split at ht <;> cases ht
        exact .inr (.inl (by rw [← hc]; rfl))
    | cons k todo =>
      rw [List.map_cons, List.cons_append, settle_token] at ht
      split at ht <;> cases ht
      exact .inl hc
  | naming closed since goals he hv hb' hc' hn hg hs =>
    have hv' : .varKw ∈ kinds ts := by
      rw [he, kinds, List.map_append]
      exact List.mem_append_left _ hv
    rw [if_pos hv'] at hc
    rw [hg] at ht
    -- Either nothing is written, or the cells are and then `begin` is missing.
    rcases code_of_naming_error hn ht with hs | ⟨rfl, hs⟩
    · exact .inr (.inl (hs.trans hc))
    · exact .inr (.inr ⟨hg, hs⟩)
  | body hbegin => exact absurd hbegin hb

/-- **A name that is declared again** leaves `start` alone. -/
theorem code_of_redeclared (hd : d.symbols.names = []) (hts : ∀ t ∈ ts, t.kind ≠ .eof)
    (h : run ⟨Goal.program, d⟩ ts = .ok q) (ht : q.step t = .error s) {x : Token}
    (hf : s.fault = .redeclared x) : s.draft.code = d.code.push .start := by
  have hs : s.fault.stage = .semantic := by rw [hf]; rfl
  have hr := reading_run hd hts h
  obtain ⟨pre, y, mid, rfl, -, hx, hb, -⟩ | ⟨hu, -⟩ := hr.fault ht hs
  · have hv : .varKw ∈ kinds (pre ++ y :: mid) := by
      rw [kinds, List.map_append]
      exact List.mem_append_left _ hx.var
    have hc := code_of_run hd hts hb h
    rw [if_pos hv] at hc
    rcases hr with _ | ⟨closed, since, goals, he, -, -, -, hn, hg, -⟩ | hbegin
    · rename_i todo hk hg _
      exact absurd hv (not_mem_of_opening hk (by decide))
    · rw [Parse.step, hg] at ht
      obtain ⟨-, hdec⟩ := naming_fault hn ht hs
      exact (Draft.code_of_declareAll_error hdec).trans hc
    · exact absurd hbegin hb
  · rw [hf] at hu
    cases hu

end Grammar

end OnePass
