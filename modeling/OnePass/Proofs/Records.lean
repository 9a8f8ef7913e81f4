import Mathlib.Data.List.DropRight
import OnePass.Proofs.LoopLabels
import OnePass.Proofs.SharedSink
import OnePass.Proofs.Tiling

/-!
What a compilation records about itself: the declarations in order, then two labels for each loop
that has begun.

All declarations come before all labels because the declarations of a program come before its
`begin` and its loops after it. The labels of a loop are taken, and the first of them is anchored,
at its `while`; the code that is written later anchors only second labels.
-/

namespace OnePass

/-- The instruction that a loop begins with: it anchors the first of the loop's two labels, which is
the odd one. -/
def Instruction.opensLoop : Instruction → Bool
  | .anchor l => l.number % 2 = 1
  | _ => false

namespace Grammar

open Parse

/-! ### What has been accepted -/

/-- The tokens before the place of a fault, or all of them. -/
def tokensBefore (ts : List Token) : Except Fault SymbolTable → List Token
  | .ok _ => ts
  | .error f => ts.takeWhile fun t => t.position ≠ f.position

/-- The names of the groups of declarations that have been closed. -/
def closedNames (ts : List Token) : List String :=
  declaredNames ((beforeBegin ts).rdropWhile fun t => t.kind ≠ .semicolon)

/-- The names that have been declared by the end or by the fault. They become known when their group
is closed, and then up to the first that is known already. -/
def acceptedNames (ts : List Token) (result : Except Fault SymbolTable) : List String :=
  match result with
  | .ok _ | .error (.redeclared _) => declaredNames (tokensBefore ts result)
  | .error _ => closedNames (tokensBefore ts result)

/-- The records of a compilation of `n` tokens in which `names` have been declared and `m` loops
have begun. -/
def records (n : Nat) (names : List String) (m : Nat) : List String :=
  s!"lexed {n} tokens" ::
    names.zipIdx.map (fun x => s!"declared '{x.1}' at address {x.2}") ++
    (List.range' 1 (2 * m)).map fun k => s!"allocated label L{k}"

/-- The last record, which only a compilation that succeeds has. -/
def summary : Except Fault SymbolTable → Nat → List String
  | .ok table, size => [s!"compiled {table.size} symbols into {size} instructions"]
  | .error _, _ => []

variable {ts us vs : List Token} {t : Token} {n : Nat} {d d' : Draft} {p q : Parse} {s : Stop}
  {g : Goal} {gs : List Goal}

/-! ### The invariant -/

/-- The draft has recorded the declaration of its names, and then the labels of `n` loops. -/
structure Logged (n : Nat) (d : Draft) : Prop where
  labels : d.labels = 2 * n
  events : d.events.toList = d.symbols.toList.map .declared ++
    (List.range' 1 (2 * n)).map fun k => Event.labelled ⟨k⟩
  anchors : d.code.countP Instruction.opensLoop = n

lemma logged_onto : Logged 0 (.onto #[]) := ⟨rfl, rfl, rfl⟩

lemma Logged.emit (h : Logged n d) {i : Instruction} (hi : i.opensLoop = false) :
    Logged n (d.emit i) :=
  ⟨h.labels, h.events, by simpa [Draft.emit, Array.countP_push, hi] using h.anchors⟩

lemma Logged.loop (h : Logged n d) :
    Logged (n + 1) (d.newLabel.2.newLabel.2.emit (.anchor d.newLabel.1)) := by
  have hl := h.labels
  rw [newLabel_newLabel, newLabel_fst]
  refine ⟨?_, ?_, ?_⟩
  · rw [labels_grow]
    omega
  · have hr : List.range' 1 (2 * (n + 1)) =
        List.range' 1 (2 * n) ++ List.range' (d.labels + 1) (2 * 1) := by
      rw [Nat.mul_add, ← List.range'_append_1, hl, Nat.add_comm 1]
    simp [grow, h.events, hr]
  · have ho : (Instruction.anchor ⟨d.labels + 1⟩).opensLoop = true := by
      rw [Instruction.opensLoop, decide_eq_true_eq]
      show (d.labels + 1) % 2 = 1
      omega
    simp [grow, h.anchors, ho]

lemma Logged.declare (h : Logged 0 d) (hd : d.declare t = .ok d') : Logged 0 d' := by
  by_cases hm : t.lexeme ∈ d.symbols.names
  · rw [Draft.declare_of_mem hm] at hd
    cases hd
  · simp only [Draft.declare, SymbolTable.declare, hm, dite_false] at hd
    cases hd
    refine ⟨h.labels, ?_, h.anchors⟩
    simp [Draft.record, h.events, SymbolTable.toList, SymbolTable.size, List.zipIdx_append]

lemma Logged.declareAll (h : Logged 0 d) (ts : List Token) :
    (∀ d', d.declareAll ts = .ok d' → Logged 0 d') ∧
      ∀ s, d.declareAll ts = .error s → Logged 0 s.draft := by
  induction ts generalizing d with
  | nil =>
    constructor
    · intro d' hd
      cases hd
      exact h
    · intro s hs
      cases hs
  | cons t ts ih =>
    rw [Draft.declareAll, List.foldlM_cons]
    by_cases ht : t.lexeme ∈ d.symbols.names
    · rw [Draft.declare_of_mem ht]
      constructor
      · intro d' hd
        cases hd
      · intro s hs
        cases hs
        exact h
    · obtain ⟨d₁, h₁, -⟩ := Draft.declare_of_not_mem ht
      rw [h₁]
      exact ih (h.declare h₁)

/-! ### One goal -/

/-- A goal that begins no loop by itself. -/
def Quiet : Goal → Prop
  | .token k => k ≠ .whileKw
  | .emit i => i.opensLoop = false
  | _ => True

/-- What a goal may answer when `n` loops have begun: it records one more at a `while`, declares
names only at a `;`, and leaves goals that begin no loop by themselves. When it stops, it is for a
name that is declared again or at the token itself, and then it has declared nothing. -/
def LoggedReply (n : Nat) (d : Draft) (t : Token) : Except Stop Reply → Prop
  | .ok (.pass d') => Logged n d' ∧ d'.symbols = d.symbols
  | .ok (.take d' new) => Logged (n + whiles [t]) d' ∧ (∀ g ∈ new, Quiet g) ∧
      (t.kind ≠ .semicolon → d'.symbols = d.symbols)
  | .error s => Logged n s.draft ∧ ((∃ x, s.fault = .redeclared x) ∨
      s.fault.position = t.position ∧ s.draft.symbols = d.symbols)

lemma loggedReply_take (h : Logged n d') (ht : t.kind ≠ .whileKw) (hs : d'.symbols = d.symbols)
    {new : List Goal} (hq : ∀ g ∈ new, Quiet g) : LoggedReply n d t (.ok (.take d' new)) :=
  ⟨by simpa [ht] using h, hq, fun _ => hs⟩

lemma loggedReply_addressOf (h : Logged n d) {f : Nat → Reply}
    (hf : ∀ a, LoggedReply n d t (.ok (f a))) :
    LoggedReply n d t (d.addressOf t >>= fun a => pure (f a)) := by
  cases ha : d.addressOf t with
  | ok a => exact hf a
  | error s =>
    obtain ⟨-, rfl⟩ := Draft.addressOf_eq_error ha
    exact ⟨h, .inr ⟨rfl, rfl⟩⟩

/-- The labels in use are even in number, so an anchor that is left behind ends a loop. -/
lemma quiet_of_left (h : Logged n d) (hg : Goal.Left d g) : Quiet g := by
  cases g with
  | token k =>
    rintro rfl
    simp [Goal.Left] at hg
  | emit i =>
    cases i with
    | anchor l =>
      obtain rfl := hg
      have hl := h.labels
      rw [Quiet, Instruction.opensLoop, decide_eq_false_iff_not]
      show ¬ (d.labels + 2) % 2 = 1
      omega
    | _ => rfl
  | _ => trivial

lemma loggedReply_takes {m : Goal.Take} (h : Logged n d) (hm : Goal.Takes t.kind g m)
    (hq : Quiet g) (hn : ∀ group, g = .closeGroup group → n = 0) :
    LoggedReply n d t (m.on d t) := by
  have hl : ∀ a, ∀ x ∈ m.goals d t a, Quiet x := fun a x hx =>
    quiet_of_left h (hm.left d t a x hx)
  have hw : m ≠ .loop → t.kind ≠ .whileKw := by
    cases hm with
    | token hk => exact fun _ => hk ▸ hq
    | _ hk => simp [hk]
  cases m with
  | go new | name group => exact loggedReply_take h (hw (by simp)) rfl (hl 0)
  | store new =>
    exact loggedReply_addressOf h fun a => loggedReply_take h (hw (by simp)) rfl (hl a)
  | load =>
    exact loggedReply_addressOf h fun a =>
      loggedReply_take (h.emit rfl) (hw (by simp)) rfl (by simp)
  | constant =>
    simp only [Goal.Take.on]
    cases hv : d.valueOf t with
    | ok v => exact loggedReply_take (h.emit rfl) (hw (by simp)) rfl (by simp)
    | error s =>
      obtain ⟨-, rfl⟩ := Draft.valueOf_eq_error hv
      exact ⟨h, .inr ⟨rfl, rfl⟩⟩
  | loop =>
    cases hm with
    | loop hk =>
      have hone : n + whiles [t] = n + 1 := by simp [hk]
      exact ⟨hone.symm ▸ h.loop, hl 0, fun _ => rfl⟩
  | declare group =>
    cases hm with
    | endGroup hk =>
      obtain rfl := hn group rfl
      simp only [Goal.Take.on]
      cases hd : d.declareAll group with
      | ok d' =>
        refine ⟨?_, hl 0, fun hs => absurd hk hs⟩
        simpa [hk] using (h.declareAll group).1 d' hd
      | error s =>
        obtain ⟨_, x, _, _, hx, -⟩ := Draft.declareAll_eq_error hd
        exact ⟨(h.declareAll group).2 s hd, .inl ⟨x, hx⟩⟩

/-- **One goal** keeps the records in step, if names are declared before the first loop. -/
lemma loggedReply_meet (h : Logged n d) (t : Token) (hq : Quiet g)
    (hn : ∀ group, g = .closeGroup group → n = 0) : LoggedReply n d t (g.meet d t) := by
  rcases g.meet_cases t with ⟨m, hm, he⟩ | ⟨-, he⟩
  · rw [he]
    exact loggedReply_takes h hm hq hn
  · rw [he]
    cases g with
    | emit i => exact ⟨h.emit hq, rfl⟩
    | moreGroups => exact ⟨h.emit rfl, rfl⟩
    | declarations | command | moreCommands | moreFactors | moreTerms | comparison =>
      exact ⟨h, rfl⟩
    | _ => exact ⟨h, .inr ⟨rfl, rfl⟩⟩

/-! ### Steps -/

lemma logged_settle (ho : Open gs) (h : Logged n d) (hq : ∀ g ∈ gs, Quiet g)
    (hn : ∀ group, .closeGroup group ∈ gs → n = 0) (hs : settle t gs d = .ok p) :
    Logged (n + whiles [t]) p.draft ∧ (∀ g ∈ p.goals, Quiet g) ∧
      (t.kind ≠ .semicolon → p.draft.symbols = d.symbols) := by
  induction gs, d, hs using settle_ok_induction with
  | done d _ hp => simp [Open] at ho
  | take g gs d _ d' new hr hp =>
    rw [List.forall_mem_cons] at hq
    have hl := loggedReply_meet h t hq.1 fun group hg => hn group (by simp [hg])
    rw [hr] at hl
    subst hp
    exact ⟨hl.1, List.forall_mem_append.2 ⟨hl.2.1, hq.2⟩, hl.2.2⟩
  | pass g gs d _ d' _ hr ih =>
    rw [List.forall_mem_cons] at hq
    have hl := loggedReply_meet h t hq.1 fun group hg => hn group (by simp [hg])
    rw [hr] at hl
    rw [← hl.2]
    exact ih (ho.of_pass hr) hl.1 hq.2 fun group hg => hn group (by simp [hg])

lemma logged_settle_error (h : Logged n d) (hq : ∀ g ∈ gs, Quiet g)
    (hn : ∀ group, .closeGroup group ∈ gs → n = 0) (hs : settle t gs d = .error s) :
    Logged n s.draft ∧ ((∃ x, s.fault = .redeclared x) ∨
      s.fault.position = t.position ∧ s.draft.symbols = d.symbols) := by
  induction gs, d, hs using settle_error_induction with
  | stop g gs d _ hr =>
    have hl := loggedReply_meet h t (hq g (by simp)) fun group hg => hn group (by simp [hg])
    rwa [hr] at hl
  | pass g gs d _ d' _ hr ih =>
    rw [List.forall_mem_cons] at hq
    have hl := loggedReply_meet h t hq.1 fun group hg => hn group (by simp [hg])
    rw [hr] at hl
    rw [← hl.2]
    exact ih hl.1 hq.2 fun group hg => hn group (by simp [hg])

/-! ### Names of closed groups -/

lemma closedNames_append_of_begin (h : .beginKw ∈ kinds us) :
    closedNames (us ++ vs) = closedNames us := by
  rw [closedNames, beforeBegin_append_of_mem h, closedNames]

lemma closedNames_concat (ht : t.kind ≠ .semicolon) :
    closedNames (ts ++ [t]) = closedNames ts := by
  by_cases hb : .beginKw ∈ kinds ts
  · exact closedNames_append_of_begin hb
  · rw [closedNames, closedNames, beforeBegin_append_of_not_mem hb, beforeBegin_of_not_mem hb]
    by_cases hk : t.kind = .beginKw
    · simp [beforeBegin, hk]
    · have hu : beforeBegin [t] = [t] := by simp [beforeBegin, hk]
      rw [hu, List.rdropWhile_concat_pos _ _ _ (by simpa using ht)]

lemma closedNames_semicolon (ht : t.kind = .semicolon) (hb : .beginKw ∉ kinds ts) :
    closedNames (ts ++ [t]) = declaredNames (ts ++ [t]) := by
  have hu : .beginKw ∉ kinds (ts ++ [t]) := by simpa [ht] using hb
  rw [closedNames, beforeBegin_of_not_mem hu, List.rdropWhile_concat_neg _ _ _ (by simp [ht])]

/-! ### Runs -/

lemma Reading.begin_not_mem (hr : Reading ts p) {group : List Token}
    (hg : .closeGroup group ∈ p.goals) : .beginKw ∉ kinds ts := by
  cases hr with
  | opening todo hk => exact not_mem_of_opening hk (by decide)
  | naming closed since goals ht hv hb => exact hb
  | body hb ho hg' => exact (hg' _ hg).elim

lemma whiles_of_run (hts : ∀ t ∈ ts, t.kind ≠ .eof) (h : run ⟨Goal.program, d⟩ ts = .ok q)
    (hb : .beginKw ∉ kinds ts) : whiles ts = 0 := by
  obtain ⟨-, hm⟩ := run_sound open_program hts h
  obtain ⟨us, hu⟩ := MeetsAll.exists q.goals
  obtain ⟨P, e, hP⟩ := (hm us hu).program
  have hy : P.yield ++ [e.1] = P.header ++ (P.begin.1 :: P.body.yield ++
      [P.finish.1, P.dot.1, e.1]) := by simp [Program.yield]
  rw [hy] at hP
  have hw := P.whiles_header
  rcases List.append_eq_append_iff.1 hP with ⟨vs, hv, -⟩ | ⟨vs, rfl, hv⟩
  · rw [hv, whiles_append] at hw
    omega
  · cases vs with
    | nil => simpa using hw
    | cons v vs =>
      obtain ⟨rfl, -⟩ := List.cons.inj hv
      exact absurd (by simp) hb

/-- The records of a parse are in step with the tokens that it has read. -/
structure Tracked (ts : List Token) (p : Parse) : Prop where
  opened : Open p.goals
  logged : Logged (whiles ts) p.draft
  quiet : ∀ g ∈ p.goals, Quiet g
  early : ∀ group, .closeGroup group ∈ p.goals → whiles ts = 0
  names : p.draft.symbols.names = closedNames ts

lemma Tracked.step (hp : Tracked ts p) (h : p.step t = .ok q) :
    Logged (whiles (ts ++ [t])) q.draft ∧ (∀ g ∈ q.goals, Quiet g) ∧
      (t.kind ≠ .semicolon → q.draft.symbols = p.draft.symbols) := by
  rw [whiles_append]
  exact logged_settle hp.opened hp.logged hp.quiet hp.early h

/-- **The records of a run.** -/
theorem tracked_run (hts : ∀ t ∈ ts, t.kind ≠ .eof)
    (h : run ⟨Goal.program, .onto #[]⟩ ts = .ok q) : Tracked ts q := by
  induction ts using List.reverseRecOn generalizing q with
  | nil =>
    cases h
    exact ⟨open_program, logged_onto, by simp [Goal.program, Quiet, Instruction.opensLoop],
      by simp [Goal.program], rfl⟩
  | append_singleton ts t ih =>
    have hrun := h
    have hr := reading_run rfl hts h
    rw [run_append] at h
    obtain ⟨p, hp, h⟩ := bind_eq_ok.1 h
    obtain ⟨q', hq, h⟩ := bind_eq_ok.1 h
    cases h
    have hts' := (List.forall_mem_append.1 hts).1
    have hpt := ih hts' hp
    obtain ⟨hl, hquiet, hs⟩ := hpt.step hq
    refine ⟨(run_sound open_program hts hrun).1, hl, hquiet, ?_, ?_⟩
    · exact fun group hg => whiles_of_run hts hrun (hr.begin_not_mem hg)
    · by_cases ht : t.kind = .semicolon
      · by_cases hb : .beginKw ∈ kinds ts
        · -- In the body nothing is declared, and the two lists of names have been equal before.
          calc q.draft.symbols.names
              = declaredNames (ts ++ [t]) := hr.of_semicolon ht
            _ = declaredNames ts := declaredNames_append_of_begin hb
            _ = p.draft.symbols.names := ((reading_run rfl hts' hp).of_begin hb).1.symm
            _ = closedNames ts := hpt.names
            _ = closedNames (ts ++ [t]) := (closedNames_append_of_begin hb).symm
        -- A semicolon in the declarations closes a group.
        · rw [hr.of_semicolon ht, closedNames_semicolon ht hb]
      · rw [hs ht, hpt.names, closedNames_concat ht]

/-! ### The records of a compilation -/

variable {source : String}

lemma Logged.records (h : Logged n d) (m : Nat) :
    (Event.scanned m :: d.events.toList).map Event.text = records m d.symbols.names n := by
  have hk : ∀ k, (Event.labelled ⟨k⟩).text = s!"allocated label L{k}" := by
    intro k
    show "allocated label " ++ ("L" ++ toString k) = "allocated label L" ++ toString k
    rw [← String.append_assoc]
    rfl
  rw [List.map_cons, h.events, Grammar.records, SymbolTable.toList]
  simp only [List.map_append, List.map_map, Function.comp_def, hk]
  rfl

lemma takeWhile_position (h : tokenize source = .ok (us ++ t :: vs)) :
    (us ++ t :: vs).takeWhile (fun u => u.position ≠ t.position) = us := by
  obtain ⟨tiles, last, he, -, ht, hts⟩ := exists_tiled_of_ok ((tokenize_eq _).symm.trans h)
  have hp : (us ++ t :: vs).Pairwise fun a b => a.position.Before b.position := by
    rw [hts, he]
    exact ht.pairwise.2
  have hu : ∀ u ∈ us, decide (u.position ≠ t.position) = true := by
    intro u hu
    have hb := (List.pairwise_append.1 hp).2.2 u hu t (by simp)
    rw [decide_eq_true_eq]
    intro hut
    rw [hut, Position.Before] at hb
    omega
  rw [List.takeWhile_append_of_pos hu, List.takeWhile_cons_of_neg (by simp), List.append_nil]

lemma acceptedNames_error {f : Fault} (hf : ∀ x, f ≠ .redeclared x) :
    acceptedNames ts (.error f) = closedNames (tokensBefore ts (.error f)) := by
  cases f with
  | redeclared x => exact absurd rfl (hf x)
  | _ => rfl

lemma logged_of_ok (ht : tokenize source = .ok ts) (hp : parseProgram (.onto #[]) ts = .ok d) :
    Logged (whiles ts) d ∧ d.symbols.names = declaredNames ts := by
  obtain ⟨us, e, rfl, hu, hr⟩ := tokenize_ok ht
  obtain ⟨P, rfl, -, hn, -⟩ := parseProgram_ok ⟨rfl, rfl⟩ hu hr hp
  obtain ⟨q, hq, rfl⟩ := map_eq_ok.1 hp
  rw [run_append] at hq
  obtain ⟨p, hp, hq⟩ := bind_eq_ok.1 hq
  obtain ⟨q', hq', hq⟩ := bind_eq_ok.1 hq
  cases hq
  refine ⟨((tracked_run hu hp).step hq').1, ?_⟩
  rw [hn, declaredNames_append_of_begin (by simp [Program.yield]), P.declaredNames_yield]

lemma logged_of_error (ht : tokenize source = .ok ts)
    (hp : parseProgram (.onto #[]) ts = .error s) :
    Logged (whiles (tokensBefore ts (.error s.fault))) s.draft ∧
      s.draft.symbols.names = acceptedNames ts (.error s.fault) := by
  obtain ⟨us, t, vs, q, rfl, hq, hs⟩ := run_eq_error (map_eq_error.1 hp)
  obtain ⟨us', e, he, hu, -⟩ := tokenize_ok ht
  have hus : ∀ t ∈ us, t.kind ≠ .eof := fun x hx => hu x ((prefix_of_append_eq he.symm).subset hx)
  have hT := tracked_run hus hq
  obtain ⟨hl, hf⟩ := logged_settle_error hT.logged hT.quiet hT.early hs
  -- Only a redeclaration is reported at another token than the one that was read.
  by_cases hx : ∃ x, s.fault = .redeclared x
  · obtain ⟨x, hx⟩ := hx
    have hsem : s.fault.stage = .semantic := by rw [hx]; rfl
    obtain ⟨pre, y, mid, rfl, hy, -, hb, hn⟩ | ⟨hy, -⟩ :=
      (reading_run rfl hus hq).fault hs hsem
    · have hbefore : tokensBefore (pre ++ y :: mid ++ t :: vs) (.error s.fault) = pre := by
        rw [List.append_assoc, List.cons_append] at ht ⊢
        rw [hy, tokensBefore]
        exact takeWhile_position ht
      -- No loop has been opened while names are declared.
      have hw := whiles_of_run hus hq hb
      have hw' : whiles pre = 0 := by
        rw [whiles_append] at hw
        omega
      have hacc : acceptedNames (pre ++ y :: mid ++ t :: vs) (.error s.fault) =
          declaredNames (tokensBefore (pre ++ y :: mid ++ t :: vs) (.error s.fault)) := by
        rw [hy]
        rfl
      rw [hacc, hbefore, hw', ← hw]
      exact ⟨hl, hn⟩
    · cases hx.symm.trans hy
  · obtain ⟨hpos, hsym⟩ := hf.resolve_left hx
    have hbefore : tokensBefore (us ++ t :: vs) (.error s.fault) = us := by
      rw [tokensBefore, hpos]
      exact takeWhile_position ht
    rw [acceptedNames_error (not_exists.1 hx), hbefore, hsym]
    exact ⟨hl, hT.names⟩

/-- **The records of a compilation** tell what it has done. A text that cannot be scanned leaves
none. Otherwise they tell the number of tokens, the names that have been declared by the end or by
the fault, with their addresses, and two labels for each loop that has begun by then; and at the
end, if there is no fault, the number of names and the number of instructions that have been added
to the sink. The loops that have begun are also those whose first label is anchored in the code. -/
theorem compileInto_records (sink : Array Instruction) (source : String) :
    (∀ f, tokenize source = .error f → (compileInto sink source).events = []) ∧
    ∀ ts, tokenize source = .ok ts →
      ∃ (names : List String) (loops : Nat) (code : Array Instruction),
        names = acceptedNames ts (compileInto sink source).result ∧
        loops = whiles (tokensBefore ts (compileInto sink source).result) ∧
        (compileInto sink source).code = sink ++ code ∧
        (compileInto sink source).events.map Event.text =
          records ts.length names loops ++ summary (compileInto sink source).result code.size ∧
        code.countP Instruction.opensLoop = loops ∧
        ∀ table, (compileInto sink source).result = .ok table →
          table.names = names ∧ table.size = names.length ∧ loops = whiles ts := by
  constructor
  · intro f hf
    simp only [compileInto, hf]
  · intro ts ht
    rw [compileInto_of_tokenize sink ht]
    cases hp : parseProgram (.onto #[]) ts with
    | ok d =>
      obtain ⟨hl, hn⟩ := logged_of_ok ht hp
      refine ⟨_, _, d.code, rfl, rfl, rfl, ?_, hl.anchors, ?_⟩
      · rw [List.map_append, hl.records, hn]
        rfl
      · intro table htab
        cases htab
        exact ⟨hn, congrArg List.length hn, rfl⟩
    | error s =>
      obtain ⟨hl, hn⟩ := logged_of_error ht hp
      refine ⟨_, _, s.draft.code, rfl, rfl, rfl, ?_, hl.anchors, ?_⟩
      · rw [hl.records, hn]
        simp [summary]
      · intro table htab
        cases htab

example : (compileInto #[] "program p;var a:integer;begin while a do b").events.map Event.text =
    ["lexed 14 tokens", "declared 'a' at address 0", "allocated label L1",
      "allocated label L2"] := by decide +kernel

end Grammar

end OnePass
