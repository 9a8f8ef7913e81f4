import Mathlib.Data.List.TakeWhile
import OnePass.Proofs.Code
import OnePass.Proofs.GoalStack
import OnePass.Proofs.Sentence

/-!
Where a parse stands after some tokens, and which names it knows by then.

Until the program's `begin` the goals are known exactly: first the opening of the program, then a
group of declarations in the making. After it they are goals of the body, which know all declared
names and have found every name used so far among them.
-/

namespace OnePass.Grammar

open Parse

/-! ### Declared names -/

def identifiers (ts : List Token) : List Token := ts.filter fun t => t.kind = .identifier

/-- The tokens before the first `begin`. -/
def beforeBegin (ts : List Token) : List Token := ts.takeWhile fun t => t.kind ≠ .beginKw

/-- The tokens from the first `begin` on. -/
def fromBegin (ts : List Token) : List Token := ts.dropWhile fun t => t.kind ≠ .beginKw

/-- The identifiers between `var` and the first `begin`. -/
def declared (ts : List Token) : List Token :=
  identifiers ((beforeBegin ts).dropWhile fun t => t.kind ≠ .varKw)

def declaredNames (ts : List Token) : List String := (declared ts).map Token.lexeme

lemma identifiers_append (ts us : List Token) :
    identifiers (ts ++ us) = identifiers ts ++ identifiers us := by simp [identifiers]

variable {ts us vs : List Token} {t : Token}

lemma beforeBegin_append_of_not_mem (h : .beginKw ∉ kinds us) :
    beforeBegin (us ++ vs) = us ++ beforeBegin vs := by
  refine List.takeWhile_append_of_pos fun t ht => decide_eq_true fun hk => h ?_
  exact hk ▸ List.mem_map_of_mem ht

lemma beforeBegin_of_not_mem (h : .beginKw ∉ kinds us) : beforeBegin us = us := by
  rw [← List.append_nil us, beforeBegin_append_of_not_mem h, beforeBegin, List.takeWhile_nil]

lemma beforeBegin_append_of_mem (h : .beginKw ∈ kinds us) :
    beforeBegin (us ++ vs) = beforeBegin us := by
  induction us with
  | nil => simp at h
  | cons t us ih =>
    by_cases ht : t.kind = .beginKw
    · simp [beforeBegin, ht]
    · have hu : .beginKw ∈ kinds us := by simpa [Ne.symm ht] using h
      simpa [beforeBegin, ht] using ih hu

lemma fromBegin_append_of_mem (h : .beginKw ∈ kinds us) :
    fromBegin (us ++ vs) = fromBegin us ++ vs := by
  induction us with
  | nil => simp at h
  | cons t us ih =>
    by_cases ht : t.kind = .beginKw
    · simp [fromBegin, ht]
    · have hu : .beginKw ∈ kinds us := by simpa [Ne.symm ht] using h
      simpa [fromBegin, ht] using ih hu

lemma fromBegin_append_of_not_mem (h : .beginKw ∉ kinds us) :
    fromBegin (us ++ vs) = fromBegin vs := by
  refine List.dropWhile_append_of_pos fun t ht => decide_eq_true fun hk => h ?_
  exact hk ▸ List.mem_map_of_mem ht

lemma declared_eq_nil (h : .varKw ∉ kinds ts) : declared ts = [] := by
  have hd : ((beforeBegin ts).dropWhile fun t => t.kind ≠ .varKw) = [] := by
    refine List.dropWhile_eq_nil_iff.2 fun t ht => decide_eq_true fun hk => h ?_
    exact hk ▸ List.mem_map_of_mem ((List.takeWhile_sublist _).mem ht)
  rw [declared, hd]
  rfl

lemma declared_append_of_not_mem (hv : .varKw ∉ kinds us) (hb : .beginKw ∉ kinds us) :
    declared (us ++ vs) = declared vs := by
  have hd : ((us ++ beforeBegin vs).dropWhile fun t => t.kind ≠ .varKw) =
      (beforeBegin vs).dropWhile fun t => t.kind ≠ .varKw := by
    refine List.dropWhile_append_of_pos fun t ht => decide_eq_true fun hk => hv ?_
    exact hk ▸ List.mem_map_of_mem ht
  rw [declared, beforeBegin_append_of_not_mem hb, hd, declared]

lemma declared_append_cons (ht : t.kind = .beginKw) : declared (ts ++ t :: us) = declared ts := by
  by_cases hb : .beginKw ∈ kinds ts
  · rw [declared, beforeBegin_append_of_mem hb, declared]
  · have hu : beforeBegin (t :: us) = [] := by simp [beforeBegin, ht]
    rw [declared, beforeBegin_append_of_not_mem hb, hu, List.append_nil, declared,
      beforeBegin_of_not_mem hb]

lemma declared_append_of_begin (h : .beginKw ∈ kinds us) : declared (us ++ vs) = declared us := by
  rw [declared, beforeBegin_append_of_mem h, declared]

lemma declaredNames_append_of_begin (h : .beginKw ∈ kinds us) :
    declaredNames (us ++ vs) = declaredNames us := by
  rw [declaredNames, declared_append_of_begin h, declaredNames]

lemma declared_append_of_var (hv : .varKw ∈ kinds us) (hb : .beginKw ∉ kinds us) :
    declared (us ++ vs) = declared us ++ identifiers (beforeBegin vs) := by
  rw [declared, declared, beforeBegin_append_of_not_mem hb, beforeBegin_of_not_mem hb,
    ← identifiers_append]
  congr 1
  induction us with
  | nil => simp at hv
  | cons t us ih =>
    by_cases ht : t.kind = .varKw
    · simp [ht]
    · have hu : .varKw ∈ kinds us := by simpa [Ne.symm ht] using hv
      simpa [ht] using ih hu (by simpa using (List.not_mem_of_not_mem_cons hb))

lemma declaredNames_append (hv : .varKw ∈ kinds us) (hb : .beginKw ∉ kinds (us ++ vs)) :
    declaredNames (us ++ vs) = declaredNames us ++ (identifiers vs).map Token.lexeme := by
  have hu : .beginKw ∉ kinds us := fun h => hb (by simpa using Or.inl h)
  have hw : .beginKw ∉ kinds vs := fun h => hb (by simpa using Or.inr h)
  rw [declaredNames, declared_append_of_var hv hu, beforeBegin_of_not_mem hw, List.map_append,
    declaredNames]

/-! ### Goals of the body -/

/-- A goal that comes after the program's `begin`. -/
def InBody : Goal → Prop
  | .token k => k ≠ .identifier
  | .declarations | .name _ | .moreNames _ | .type | .closeGroup _ | .moreGroups => False
  | _ => True

variable {g : Goal} {gs new : List Goal} {d d' : Draft} {p q : Parse} {s : Stop}

/-- What a goal of the body may answer: it leaves the names alone, goes on with goals of the body,
takes a name only if it is known and otherwise faults it. -/
def BodyReply (d : Draft) (t : Token) : Except Stop Reply → Prop
  | .ok (.pass d') => d'.symbols = d.symbols
  | .ok (.take d' new) => d'.symbols = d.symbols ∧ (∀ g ∈ new, InBody g) ∧
      (t.kind = .identifier → t.lexeme ∈ d.symbols.names)
  | .error s => s.fault.stage = .semantic →
      t.kind = .identifier ∧ s.fault = .undeclared t ∧ t.lexeme ∉ d.symbols.names

lemma bodyReply_addressOf {f : Nat → Reply} (hk : t.kind = .identifier)
    (hf : t.lexeme ∈ d.symbols.names → ∀ a, BodyReply d t (.ok (f a))) :
    BodyReply d t (d.addressOf t >>= fun a => pure (f a)) := by
  by_cases hm : t.lexeme ∈ d.symbols.names
  · rw [Draft.addressOf_of_mem hm]
    exact hf hm _
  · rw [Draft.addressOf_of_not_mem hm]
    exact fun _ => ⟨hk, rfl, hm⟩

lemma inBody_of_takes {k : Kind} {m : Goal.Take} (h : Goal.Takes k g m) (hg : InBody g)
    (d : Draft) (t : Token) (a : Nat) : ∀ x ∈ m.goals d t a, InBody x := by
  cases h <;> simp [InBody, Goal.Take.goals, Goal.expression, Goal.term, Goal.operand,
    Goal.commands, Goal.loop] at hg ⊢

lemma bodyReply_takes {m : Goal.Take} (h : Goal.Takes t.kind g m) (hg : InBody g) (d : Draft) :
    BodyReply d t (m.on d t) := by
  have hn := inBody_of_takes h hg d t
  cases m with
  | go new =>
    have hk : t.kind ≠ .identifier := by
      cases h with
      | token hk => exact hk ▸ hg
      | _ hk => simp [hk, InBody] at hg ⊢
    exact ⟨rfl, hn 0, fun ht => absurd ht hk⟩
  | store new =>
    have hk : t.kind = .identifier := by cases h <;> assumption
    exact bodyReply_addressOf hk fun hm a => ⟨rfl, hn a, fun _ => hm⟩
  | load =>
    have hk : t.kind = .identifier := by cases h; assumption
    exact bodyReply_addressOf hk fun hm a => ⟨rfl, by simp, fun _ => hm⟩
  | constant =>
    have hk : t.kind = .number := by cases h; assumption
    simp only [Goal.Take.on]
    cases hv : d.valueOf t with
    | ok v => exact ⟨rfl, by simp, by simp [hk]⟩
    | error s =>
      obtain ⟨-, rfl⟩ := Draft.valueOf_eq_error hv
      exact fun hs => by cases hs
  | loop =>
    have hk : t.kind = .whileKw := by cases h; assumption
    exact ⟨rfl, hn 0, by simp [hk]⟩
  | name group | declare group => cases h <;> exact hg.elim

lemma bodyReply_meet (d : Draft) (t : Token) (hg : InBody g) : BodyReply d t (g.meet d t) := by
  rcases g.meet_cases t with ⟨m, hm, he⟩ | ⟨-, he⟩
  · rw [he]
    exact bodyReply_takes hm hg d
  · rw [he]
    cases g.otherwise with
    | want w => exact fun hs => by cases hs
    | _ => exact rfl

lemma settle_inBody (ho : Open gs) (hg : ∀ g ∈ gs, InBody g) (h : settle t gs d = .ok p) :
    p.draft.symbols = d.symbols ∧ (∀ g ∈ p.goals, InBody g) ∧
      (t.kind = .identifier → t.lexeme ∈ d.symbols.names) := by
  induction gs, d, h using settle_ok_induction with
  | done d _ hp => simp [Open] at ho
  | take g gs d _ d' new hr hp =>
    rw [List.forall_mem_cons] at hg
    have hb := bodyReply_meet d t hg.1
    rw [hr] at hb
    subst hp
    exact ⟨hb.1, fun g hm => (List.mem_append.1 hm).elim (hb.2.1 g) (hg.2 g), hb.2.2⟩
  | pass g gs d _ d' _ hr ih =>
    rw [List.forall_mem_cons] at hg
    have hb := bodyReply_meet d t hg.1
    rw [hr] at hb
    have hd : d'.symbols = d.symbols := hb
    rw [← hd]
    exact ih (ho.of_pass hr) hg.2

lemma settle_inBody_error (hg : ∀ g ∈ gs, InBody g) (h : settle t gs d = .error s)
    (hs : s.fault.stage = .semantic) :
    t.kind = .identifier ∧ s.fault = .undeclared t ∧ t.lexeme ∉ d.symbols.names := by
  induction gs, d, h using settle_error_induction with
  | stop g gs d _ hr =>
    have hb := bodyReply_meet d t (List.forall_mem_cons.1 hg).1
    rw [hr] at hb
    exact hb hs
  | pass g gs d _ d' _ hr ih =>
    rw [List.forall_mem_cons] at hg
    have hb := bodyReply_meet d t hg.1
    rw [hr] at hb
    have hd : d'.symbols = d.symbols := hb
    rw [← hd]
    exact ih hg.2

/-! ### Where a parse stands -/

/-- The goals inside the declarations, given the names of the group so far. -/
inductive Naming (group : List Token) : List Goal → Prop
  | name : Naming group [.name group]
  | moreNames : Naming group [.moreNames group]
  | type : Naming group [.type, .closeGroup group]
  | closeGroup : Naming group [.closeGroup group]
  | moreGroups (h : group = []) : Naming group [.moreGroups]

/-- Where a parse stands after the tokens `ts` of a program. -/
inductive Reading (ts : List Token) (p : Parse) : Prop
  /-- Before the declarations. -/
  | opening (todo : List Kind) (hk : kinds ts ++ todo = [.programKw, .identifier, .semicolon])
      (hg : p.goals = todo.map Goal.token ++ Goal.program.drop 3)
      (hs : p.draft.symbols.names = [])
  /-- Inside the declarations. The names of the groups that are closed are known. -/
  | naming (closed since : List Token) (goals : List Goal) (ht : ts = closed ++ since)
      (hv : .varKw ∈ kinds closed) (hb : .beginKw ∉ kinds ts) (hc : .semicolon ∉ kinds since)
      (hn : Naming (identifiers since) goals) (hg : p.goals = goals ++ Goal.program.drop 5)
      (hs : p.draft.symbols.names = declaredNames closed)
  /-- After the program's `begin`. -/
  | body (hb : .beginKw ∈ kinds ts) (ho : Open p.goals) (hg : ∀ g ∈ p.goals, InBody g)
      (hs : p.draft.symbols.names = declaredNames ts)
      (hk : Known p.draft.symbols.names (fromBegin ts))

lemma settle_token (t : Token) (k : Kind) (gs : List Goal) (d : Draft) :
    settle t (.token k :: gs) d =
      if t.kind = k then .ok ⟨gs, d⟩ else .error ⟨.unexpected (.kind k) t, d⟩ := by
  rw [settle_cons, Goal.meet]
  split <;> rfl

lemma program_drop : Goal.program.drop 5 = .token .beginKw :: Goal.program.drop 6 := rfl

lemma settle_declarations (t : Token) (d : Draft) :
    settle t (Goal.program.drop 3) d =
      if t.kind = .varKw then .ok ⟨.name [] :: Goal.program.drop 5, d.emit .start⟩
      else settle t (Goal.program.drop 5) (d.emit .start) := by
  have hs : settle t (Goal.program.drop 3) d =
      settle t (.declarations :: Goal.program.drop 5) (d.emit .start) := rfl
  rw [hs, settle_cons, Goal.meet]
  split <;> rfl

lemma settle_moreGroups (t : Token) (d : Draft) :
    settle t (.moreGroups :: Goal.program.drop 5) d =
      if t.kind = .identifier then .ok ⟨.moreNames [t] :: Goal.program.drop 5, d⟩
      else settle t (Goal.program.drop 5) (d.emit (.allocate d.symbols.size)) := by
  rw [settle_cons, Goal.meet]
  split <;> rfl

/-- **What a token does inside the declarations**: it is one more name of the group, or stands
between its parts; or it closes the group; or it is the program's `begin`. -/
lemma Naming.settle_ok {group : List Token} (hn : Naming group gs)
    (h : settle t (gs ++ Goal.program.drop 5) d = .ok q) :
    (∃ gs', t.kind = .identifier ∧ Naming (group ++ [t]) gs' ∧
      q = ⟨gs' ++ Goal.program.drop 5, d⟩) ∨
    (∃ gs', t.kind ∈ [Kind.comma, .colon, .integerKw] ∧ Naming group gs' ∧
      q = ⟨gs' ++ Goal.program.drop 5, d⟩) ∨
    (∃ d', t.kind = .semicolon ∧ d.declareAll group = .ok d' ∧
      q = ⟨.moreGroups :: Goal.program.drop 5, d'⟩) ∨
    group = [] ∧ t.kind = .beginKw ∧
      q = ⟨Goal.program.drop 6, d.emit (.allocate d.symbols.size)⟩ := by
  cases hn with
  | name =>
    rw [List.singleton_append, settle_cons, Goal.meet] at h
    split at h <;> cases h
    exact .inl ⟨_, ‹_›, .moreNames, rfl⟩
  | moreNames =>
    rw [List.singleton_append, settle_cons, Goal.meet] at h
    split at h <;> cases h <;> rename_i ht
    · exact .inr (.inl ⟨_, by simp [ht], .name, rfl⟩)
    · exact .inr (.inl ⟨_, by simp [ht], .type, rfl⟩)
  | type =>
    rw [List.cons_append, settle_cons, Goal.meet] at h
    split at h <;> cases h
    rename_i ht
    exact .inr (.inl ⟨_, by simp [ht], .closeGroup, rfl⟩)
  | closeGroup =>
    rw [List.singleton_append, settle_cons] at h
    obtain ⟨r, hr, h⟩ := bind_eq_ok.1 h
    rw [Goal.meet] at hr
    split at hr
    · obtain ⟨d', hd, hr⟩ := bind_eq_ok.1 hr
      cases hr
      exact .inr (.inr (.inl ⟨d', ‹_›, hd, (Except.ok.inj h).symm⟩))
    · cases hr
  | moreGroups hi =>
    rw [List.singleton_append, settle_moreGroups] at h
    split at h
    · cases h
      subst hi
      exact .inl ⟨_, ‹_›, .moreNames, rfl⟩
    · rw [program_drop, settle_token] at h
      split at h <;> cases h
      exact .inr (.inr (.inr ⟨hi, ‹_›, rfl⟩))

lemma Naming.settle_error {group : List Token} (hn : Naming group gs)
    (h : settle t (gs ++ Goal.program.drop 5) d = .error s) :
    (∃ w, s = ⟨.unexpected w t, d⟩) ∨ (t.kind = .semicolon ∧ d.declareAll group = .error s) ∨
      gs = [.moreGroups] ∧
        s = ⟨.unexpected (.kind .beginKw) t, d.emit (.allocate d.symbols.size)⟩ := by
  cases hn with
  | closeGroup =>
    rw [List.singleton_append, settle_cons] at h
    obtain hr | ⟨r, hr, h⟩ := bind_eq_error.1 h <;> rw [Goal.meet] at hr <;> split at hr
    · obtain hd | ⟨d', -, hr⟩ := bind_eq_error.1 hr
      · exact .inr (.inl ⟨‹_›, hd⟩)
      · cases hr
    · exact .inl ⟨_, (Except.error.inj hr).symm⟩
    · obtain ⟨d', -, hr⟩ := bind_eq_ok.1 hr
      cases hr
      cases h
    · cases hr
  | moreGroups =>
    rw [List.singleton_append, settle_moreGroups] at h
    split at h
    · cases h
    · rw [program_drop, settle_token] at h
      split at h <;> cases h
      exact .inr (.inr ⟨rfl, rfl⟩)
  | _ =>
    rw [List.cons_append, settle_cons, Goal.meet] at h
    split at h <;> cases h
    exact .inl ⟨_, rfl⟩

lemma reading_begin (ht : t.kind = .beginKw) (hb : .beginKw ∉ kinds ts)
    (hs : d.symbols.names = declaredNames ts) :
    Reading (ts ++ [t]) ⟨Goal.program.drop 6, d⟩ := by
  refine .body (by simp [ht]) (by simp [Open, Goal.program, List.suffix_cons_iff])
    (by simp [Goal.program, InBody]) ?_ ?_
  · rw [hs, declaredNames, declaredNames, declared_append_cons ht]
  · rw [fromBegin_append_of_not_mem hb]
    simp [fromBegin, ht]

lemma reading_declarations (hv : .varKw ∉ kinds ts) (hb : .beginKw ∉ kinds ts)
    (hs : d.symbols.names = []) (h : settle t (Goal.program.drop 3) d = .ok q) :
    Reading (ts ++ [t]) q := by
  rw [settle_declarations] at h
  split at h
  · rename_i ht
    cases h
    refine .naming (ts ++ [t]) [] _ (by simp) (by simp [ht]) (by simp [ht, hb]) (by simp) .name
      rfl ?_
    rw [declaredNames, declared_append_of_not_mem hv hb]
    simpa [declared, beforeBegin, ht, identifiers] using hs
  · rw [program_drop, settle_token] at h
    split at h <;> cases h
    rename_i ht
    exact reading_begin ht hb (by simp [hs, declaredNames, declared_eq_nil hv])

lemma reading_naming {closed since : List Token} {goals : List Goal}
    (hv : .varKw ∈ kinds closed) (hb : .beginKw ∉ kinds (closed ++ since))
    (hc : .semicolon ∉ kinds since) (hn : Naming (identifiers since) goals)
    (hs : d.symbols.names = declaredNames closed)
    (h : settle t (goals ++ Goal.program.drop 5) d = .ok q) :
    Reading (closed ++ since ++ [t]) q := by
  -- a token that neither closes the group nor ends the declarations
  have next : ∀ {goals' : List Goal}, t.kind ≠ .beginKw → t.kind ≠ .semicolon →
      Naming (identifiers (since ++ [t])) goals' →
      Reading (closed ++ since ++ [t]) ⟨goals' ++ Goal.program.drop 5, d⟩ := by
    intro goals' h₁ h₂ hg
    refine .naming closed (since ++ [t]) goals' (by simp) hv ?_ ?_ hg rfl hs
    · simpa [Ne.symm h₁] using hb
    · simpa [Ne.symm h₂] using hc
  have other : t.kind ≠ .identifier → identifiers (since ++ [t]) = identifiers since :=
    fun ht => by simp [identifiers, ht]
  obtain ⟨gs', ht, hn', rfl⟩ | ⟨gs', ht, hn', rfl⟩ | ⟨d', ht, hd, rfl⟩ | ⟨hi, ht, rfl⟩ :=
    hn.settle_ok h
  · have name : identifiers (since ++ [t]) = identifiers since ++ [t] := by simp [identifiers, ht]
    rw [← name] at hn'
    exact next (by simp [ht]) (by simp [ht]) hn'
  · have hk : t.kind ≠ .beginKw ∧ t.kind ≠ .semicolon ∧ t.kind ≠ .identifier := by
      refine ⟨?_, ?_, ?_⟩ <;> rintro hk <;> simp [hk] at ht
    rw [← other hk.2.2] at hn'
    exact next hk.1 hk.2.1 hn'
  · -- the group is closed, and its names are known
    obtain ⟨d₁, h₁, hn₁, -⟩ := Draft.declareAll_of_nodup (Draft.nodup_of_declareAll hd)
    obtain rfl : d' = d₁ := Except.ok.inj (hd.symm.trans h₁)
    refine .naming (closed ++ since ++ [t]) [] _ (by simp) ?_ ?_ (by simp) (.moreGroups rfl) rfl ?_
    · rw [kinds, List.append_assoc, List.map_append]
      exact List.mem_append_left _ hv
    · simpa [ht] using hb
    · rw [List.append_assoc, declaredNames_append hv (by simpa [ht] using hb), hn₁, hs,
        other (by simp [ht])]
  · exact reading_begin ht hb (by simp [declaredNames_append hv hb, hi, hs])

theorem Reading.step (hr : Reading ts p) (ht : t.kind ≠ .eof) (h : p.step t = .ok q) :
    Reading (ts ++ [t]) q := by
  rw [Parse.step] at h
  cases hr with
  | opening todo hk hg hs =>
    rw [hg] at h
    cases todo with
    | nil =>
      rw [List.append_nil] at hk
      exact reading_declarations (by simp [hk]) (by simp [hk]) hs h
    | cons k todo =>
      rw [List.map_cons, List.cons_append, settle_token] at h
      split at h <;> cases h
      rename_i ht
      exact .opening todo (by simp [ht, ← hk]) rfl hs
  | naming closed since goals ht hv hb hc hn hg hs =>
    subst ht
    rw [hg] at h
    exact reading_naming hv hb hc hn hs h
  | body hb ho hg hs hk =>
    obtain ⟨h₁, h₂, h₃⟩ := settle_inBody ho hg h
    refine .body (by simp [hb]) ((settle_sound ho h).1 ht) h₂ ?_ ?_
    · rw [h₁, hs, declaredNames_append_of_begin hb]
    · rw [h₁, fromBegin_append_of_mem hb]
      simpa using ⟨hk, h₃⟩

theorem reading_run (hd : d.symbols.names = []) (ht : ∀ t ∈ ts, t.kind ≠ .eof)
    (h : run ⟨Goal.program, d⟩ ts = .ok q) : Reading ts q := by
  induction ts using List.reverseRecOn generalizing q with
  | nil =>
    cases h
    exact .opening [.programKw, .identifier, .semicolon] rfl rfl hd
  | append_singleton ts t ih =>
    rw [List.forall_mem_append] at ht
    rw [run_append] at h
    obtain ⟨p, hp, h⟩ := bind_eq_ok.1 h
    obtain ⟨q', hq, h⟩ := bind_eq_ok.1 h
    cases h
    exact (ih ht.1 hp).step (ht.2 t (by simp)) hq

/-! ### What a parse knows -/

lemma not_mem_of_opening {ks todo : List Kind} {k : Kind}
    (hk : ks ++ todo = [.programKw, .identifier, .semicolon])
    (h : k ∉ [Kind.programKw, .identifier, .semicolon]) : k ∉ ks :=
  fun hm => h (hk ▸ List.mem_append_left todo hm)

lemma Reading.of_begin (hr : Reading ts p) (hb : .beginKw ∈ kinds ts) :
    p.draft.symbols.names = declaredNames ts ∧ Known (declaredNames ts) (fromBegin ts) := by
  cases hr with
  | opening todo hk => exact absurd hb (not_mem_of_opening hk (by decide))
  | naming closed since goals ht hv hb' => exact absurd hb hb'
  | body _ _ _ hs hk => exact ⟨hs, hs ▸ hk⟩

lemma Reading.of_semicolon (hr : Reading (ts ++ [t]) p) (ht : t.kind = .semicolon) :
    p.draft.symbols.names = declaredNames (ts ++ [t]) := by
  cases hr with
  | opening todo hk hg hs =>
    rw [hs, declaredNames, declared_eq_nil (not_mem_of_opening hk (by decide)), List.map_nil]
  | naming closed since goals he hv hb hc hn hg hs =>
    rcases List.eq_nil_or_concat since with rfl | ⟨since, x, rfl⟩
    · rw [hs, he, List.append_nil]
    · have hx : t = x := by simpa using congrArg List.getLast? he
      exact absurd (by simp [← hx, ht]) hc
  | body _ _ _ hs => exact hs

/-! ### Faulty names -/

/-- `x` is declared after `pre`, where its name is already declared; then, after `mid`, `s` closes
its group. -/
structure Redeclaration (pre : List Token) (x : Token) (mid : List Token) (s : Token) : Prop where
  kind : x.kind = .identifier
  var : .varKw ∈ kinds pre
  no_begin : .beginKw ∉ kinds pre
  mem : x.lexeme ∈ declaredNames pre
  within : .semicolon ∉ kinds mid
  closed : s.kind = .semicolon

/-- `x` is used after `pre` without having been declared. -/
structure Misuse (pre : List Token) (x : Token) : Prop where
  kind : x.kind = .identifier
  begin : .beginKw ∈ kinds pre
  not_mem : x.lexeme ∉ declaredNames pre

lemma naming_fault {since : List Token} {goals : List Goal}
    (hn : Naming (identifiers since) goals)
    (h : settle t (goals ++ Goal.program.drop 5) d = .error s) (hf : s.fault.stage = .semantic) :
    t.kind = .semicolon ∧ d.declareAll (identifiers since) = .error s := by
  obtain ⟨w, rfl⟩ | hd | ⟨-, rfl⟩ := hn.settle_error h
  · cases hf
  · exact hd
  · cases hf

lemma declarations_fault (h : settle t (Goal.program.drop 3) d = .error s) :
    s.fault.stage = .syntactic := by
  rw [settle_declarations] at h
  split at h
  · cases h
  · rw [program_drop, settle_token] at h
    split at h <;> cases h
    rfl

lemma redeclaration_of_declareAll {closed since : List Token} (hv : .varKw ∈ kinds closed)
    (hb : .beginKw ∉ kinds (closed ++ since)) (hc : .semicolon ∉ kinds since)
    (hs : d.symbols.names = declaredNames closed) (ht : t.kind = .semicolon)
    (h : d.declareAll (identifiers since) = .error s) :
    ∃ pre x mid, closed ++ since = pre ++ x :: mid ∧ s.fault = .redeclared x ∧
      Redeclaration pre x mid t ∧ s.draft.symbols.names = declaredNames pre := by
  obtain ⟨us, x, vs, hi, hx, hnd, hm⟩ := Draft.declareAll_eq_error h
  obtain ⟨us', vs', rfl, hu, hv'⟩ := List.filter_eq_append_iff.1 hi
  obtain ⟨us'', mid, rfl, hn, hk, -⟩ := List.filter_eq_cons_iff.1 hv'
  have hus : identifiers (us' ++ us'') = us := by
    rw [identifiers_append, identifiers, hu, identifiers, List.filter_eq_nil_iff.2 hn,
      List.append_nil]
  simp only [List.map_append, List.map_cons, List.mem_append, List.mem_cons, not_or] at hb hc
  have hb' : .beginKw ∉ kinds (closed ++ (us' ++ us'')) := by
    simp only [List.map_append, List.mem_append, not_or]
    exact ⟨hb.1, hb.2.1, hb.2.2.1⟩
  have hpre : declaredNames (closed ++ (us' ++ us'')) =
      d.symbols.names ++ us.map Token.lexeme := by
    rw [declaredNames_append hv hb', hus, hs]
  rw [← hpre] at hnd hm
  refine ⟨closed ++ (us' ++ us''), x, mid, by simp, hx, ⟨by simpa using hk, ?_, hb', hm, ?_, ht⟩,
    hnd⟩
  · rw [kinds, List.map_append]
    exact List.mem_append_left _ hv
  · exact hc.2.2.2

/-- **Faulty names**: a parse stops for a name at the end of the group that declares it again, or
at the name itself when it is used without having been declared. -/
theorem Reading.fault (hr : Reading ts p) (h : p.step t = .error s)
    (hf : s.fault.stage = .semantic) :
    (∃ pre x mid, ts = pre ++ x :: mid ∧ s.fault = .redeclared x ∧ Redeclaration pre x mid t ∧
      .beginKw ∉ kinds ts ∧ s.draft.symbols.names = declaredNames pre) ∨
    (s.fault = .undeclared t ∧ Misuse ts t) := by
  rw [Parse.step] at h
  cases hr with
  | opening todo hk hg hs =>
    rw [hg] at h
    cases todo with
    | nil =>
      rw [declarations_fault h] at hf
      cases hf
    | cons k todo =>
      rw [List.map_cons, List.cons_append, settle_token] at h
      split at h <;> cases h
      cases hf
  | naming closed since goals ht hv hb hc hn hg hs =>
    subst ht
    rw [hg] at h
    obtain ⟨ht, hd⟩ := naming_fault hn h hf
    obtain ⟨pre, x, mid, he, hx, hrd, hnd⟩ := redeclaration_of_declareAll hv hb hc hs ht hd
    exact .inl ⟨pre, x, mid, he, hx, hrd, hb, hnd⟩
  | body hb ho hg hs hk =>
    obtain ⟨h₁, h₂, h₃⟩ := settle_inBody_error hg h hf
    exact .inr ⟨h₂, h₁, hb, hs ▸ h₃⟩

end OnePass.Grammar
