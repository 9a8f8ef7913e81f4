import Mathlib.Logic.Relation
import OnePass.Proofs.Emission

/-!
The parse with a cursor: one goal after the other, each looking at the token at the cursor.

A goal that is met without the token makes the stack of goals lower and leaves the cursor where it
is; a goal that takes the token moves the cursor. So the cursor never goes back, and the parse
cannot come back to a stack, or to a higher one, without having moved it. This is why every parse
ends. And the end of input is taken by one goal alone, the last one, which does not move past it;
this is why the cursor stays inside the tokens.
-/

namespace OnePass

/-- The end of input comes once, and last. -/
def EndsOnce (ts : List Token) : Prop :=
  ∃ (us : List Token) (e : Terminal .eof), ts = us ++ [e.1] ∧ ∀ t ∈ us, t.kind ≠ .eof

/-- The goals that move past a token without asking whether it is the end of input. -/
def Goal.movesBlindly : Goal → Bool
  | declarations | moreNames _ | type | moreCommands | comparison => true
  | _ => false

/-- The cursor after a goal has taken the token `t` at `i`. -/
def Goal.moved (g : Goal) (t : Token) (i : Nat) : Nat :=
  if g.movesBlindly || t.kind ≠ .eof then i + 1 else i

/-- The kinds of tokens at which a goal goes round: the separators of a repetition, and the tokens
that begin a construct with another one of its sort in it. -/
def Goal.comesBackAt : Goal → List Kind
  | moreNames _ => [.comma]
  | moreGroups => [.identifier]
  | moreCommands => [.semicolon]
  | moreTerms => [.plus, .minus]
  | moreFactors => [.star, .slash]
  | command => [.whileKw, .beginKw]
  | factor => [.leftParen]
  | _ => []

/-- The goal without the names that it holds. -/
def Goal.bare : Goal → Goal
  | name _ => name []
  | moreNames _ => moreNames []
  | closeGroup _ => closeGroup []
  | g => g

/-- A parse before the token at its cursor. -/
structure Moment extends Parse where
  cursor : Nat
  deriving DecidableEq

inductive Ending
  /-- All goals are met. -/
  | finished (d : Draft)
  | stopped (s : Stop)
  /-- There is no token at the cursor. -/
  | astray
  deriving DecidableEq

namespace Moment

def start (d : Draft) : Moment := ⟨⟨Goal.program, d⟩, 0⟩

/-- Meets one goal, or ends. -/
def next (ts : List Token) (m : Moment) : Except Ending Moment :=
  match m.goals with
  | [] => .error (.finished m.draft)
  | g :: gs =>
    match ts[m.cursor]? with
    | none => .error .astray
    | some t =>
      match g.meet m.draft t with
      | .error s => .error (.stopped s)
      | .ok (.pass d) => .ok ⟨⟨gs, d⟩, m.cursor⟩
      | .ok (.take d new) => .ok ⟨⟨new ++ gs, d⟩, g.moved t m.cursor⟩

def Step (ts : List Token) (m m' : Moment) : Prop := m.next ts = .ok m'

def Reaches (ts : List Token) : Moment → Moment → Prop := Relation.ReflTransGen (Step ts)

/-- After a step or more the parse is before a goal again, on top of what was below the first goal.
So it goes round in a repetition, where nothing else is on top, and into a construct that is nested
in itself, where there is more; `exists_comesBack` says which goals do so. -/
def ComesBack (ts : List Token) (m m' : Moment) : Prop :=
  Relation.TransGen (Step ts) m m' ∧
    ∃ g g' inner rest, m.goals = g :: rest ∧ m'.goals = g' :: (inner ++ rest)

end Moment

/-! ### The end of input -/

section EndOfInput

variable {g : Goal} {d d' : Draft} {t : Token} {new : List Goal} {ts : List Token} {i : Nat}

lemma EndsOnce.kind_eq_eof_iff (h : EndsOnce ts) (ht : ts[i]? = some t) :
    t.kind = .eof ↔ i + 1 = ts.length := by
  obtain ⟨us, e, rfl, hu⟩ := h
  rw [List.length_append, List.length_singleton, Nat.add_right_cancel_iff]
  rcases Nat.lt_or_ge i us.length with hi | hi
  · rw [List.getElem?_append_left hi] at ht
    exact iff_of_false (hu t (List.mem_of_getElem? ht)) (by omega)
  · have hl : i < (us ++ [e.1]).length := (List.getElem?_eq_some_iff.1 ht).1
    rw [List.length_append, List.length_singleton] at hl
    obtain rfl : i = us.length := by omega
    rw [List.getElem?_concat_length, Option.some.injEq] at ht
    exact iff_of_true (ht ▸ e.2) rfl

lemma EndsOnce.kind_ne_of_mem_take (h : EndsOnce ts) (hi : i < ts.length) :
    ∀ t ∈ ts.take i, t.kind ≠ .eof := by
  intro t ht
  obtain ⟨j, hj, rfl⟩ := List.mem_take_iff_getElem.1 ht
  rw [ne_eq, h.kind_eq_eof_iff (List.getElem?_eq_getElem (by omega))]
  omega

/-- **The end of input** is taken by the goal that wants it, and by no other. -/
lemma Goal.eq_token_of_take (h : g.meet d t = .ok (.take d' new)) (ht : t.kind = .eof) :
    g = .token .eof ∧ new = [] := by
  obtain ⟨m, hm, h⟩ := takes_of_meet h
  cases hm with
  | token hk =>
    cases h
    exact ⟨by rw [← hk, ht], rfl⟩
  | _ hk => cases ht.symm.trans hk

lemma Goal.token_eof_not_mem (h : g.meet d t = .ok (.take d' new)) : .token .eof ∉ new := by
  obtain ⟨m, hm, h⟩ := takes_of_meet h
  obtain ⟨a, rfl⟩ := Take.goals_of_on h
  intro he
  simpa [Left] using hm.left d t a _ he

lemma Goal.moved_of_take (h : g.meet d t = .ok (.take d' new)) (i : Nat) :
    g.moved t i = if t.kind = .eof then i else i + 1 := by
  by_cases ht : t.kind = .eof
  · obtain ⟨rfl, -⟩ := eq_token_of_take h ht
    simp [moved, movesBlindly, ht]
  · simp [moved, ht]

end EndOfInput

/-! ### One step -/

namespace Moment

variable {ts : List Token} {m m' : Moment} {d : Draft}

/-- **What a step does**: a goal passes and the cursor stays; or a goal takes a token and the cursor
moves past it; or the end of input is taken, and the cursor stays before it. -/
lemma Step.cases (h : Step ts m m') : ∃ g gs t, m.goals = g :: gs ∧ ts[m.cursor]? = some t ∧
    ((∃ d, g.meet m.draft t = .ok (.pass d) ∧ m' = ⟨⟨gs, d⟩, m.cursor⟩) ∨
      ∃ d new, g.meet m.draft t = .ok (.take d new) ∧
        (t.kind ≠ .eof ∧ .token .eof ∉ new ∧ m' = ⟨⟨new ++ gs, d⟩, m.cursor + 1⟩ ∨
          t.kind = .eof ∧ g = .token .eof ∧ new = [] ∧ m' = ⟨⟨gs, d⟩, m.cursor⟩)) := by
  unfold Step next at h
  split at h
  · cases h
  rename_i g gs hg
  split at h
  · cases h
  rename_i t ht
  refine ⟨g, gs, t, hg, ht, ?_⟩
  split at h
  · cases h
  · rename_i d hm
    exact .inl ⟨d, hm, (Except.ok.inj h).symm⟩
  · rename_i d new hm
    rw [Goal.moved_of_take hm] at h
    refine .inr ⟨d, new, hm, ?_⟩
    by_cases hk : t.kind = .eof
    · obtain ⟨rfl, rfl⟩ := Goal.eq_token_of_take hm hk
      rw [if_pos hk] at h
      exact .inr ⟨hk, rfl, rfl, (Except.ok.inj h).symm⟩
    · rw [if_neg hk] at h
      exact .inl ⟨hk, Goal.token_eof_not_mem hm, (Except.ok.inj h).symm⟩

/-- The stack gets no higher unless the cursor moves. -/
lemma Step.cursor (h : Step ts m m') : m.cursor < ts.length ∧
    (m'.cursor = m.cursor + 1 ∨
      m'.cursor = m.cursor ∧ m'.goals.length < m.goals.length) := by
  obtain ⟨g, gs, t, hg, ht, h⟩ := h.cases
  refine ⟨(List.getElem?_eq_some_iff.1 ht).1, ?_⟩
  obtain ⟨d, -, rfl⟩ | ⟨d, new, -, ⟨-, -, rfl⟩ | ⟨-, -, -, rfl⟩⟩ := h
  · exact .inr ⟨rfl, by simp [hg]⟩
  · exact .inl rfl
  · exact .inr ⟨rfl, by simp [hg]⟩

/-! ### The parse ends -/

/-- What gets smaller with each goal: the tokens from the cursor on, or else the stack. -/
def remaining (ts : List Token) (m : Moment) : Nat × Nat := (ts.length - m.cursor, m.goals.length)

lemma Step.remaining_lt (h : Step ts m m') :
    Prod.Lex (· < ·) (· < ·) (m'.remaining ts) (m.remaining ts) := by
  obtain ⟨hc, hm | ⟨hm, hg⟩⟩ := h.cursor
  · exact .left _ _ (by omega)
  · rw [remaining, hm]
    exact .right _ hg

/-- **No parse goes on for ever**, whatever the tokens are. -/
theorem wellFounded_step (ts : List Token) : WellFounded fun m' m : Moment => Step ts m m' :=
  Subrelation.wf (fun {_ _} h => h.remaining_lt)
    (InvImage.wf (remaining ts) (Prod.lex Nat.lt_wfRel Nat.lt_wfRel).wf)

def run (ts : List Token) (m : Moment) : Ending :=
  match _ : m.next ts with
  | .ok m' => run ts m'
  | .error e => e
termination_by m.remaining ts
decreasing_by exact Step.remaining_lt ‹_›

/-! ### Where the cursor is -/

lemma cursor_of_transGen (h : Relation.TransGen (Step ts) m m') :
    m.cursor < m'.cursor ∨ m'.cursor = m.cursor ∧ m'.goals.length < m.goals.length := by
  induction h with
  | single h =>
    have hs := h.cursor
    omega
  | tail _ h ih =>
    have hs := h.cursor
    omega

/-- **Going round moves the cursor.** -/
theorem ComesBack.cursor_lt (h : ComesBack ts m m') : m.cursor < m'.cursor := by
  obtain ⟨hr, g, g', inner, rest, hg, hg'⟩ := h
  have hc := cursor_of_transGen hr
  rw [hg, hg', List.length_cons, List.length_cons, List.length_append] at hc
  omega

lemma Reaches.cursor_le (h : Reaches ts m m') : m.cursor ≤ m'.cursor := by
  induction h with
  | refl => exact Nat.le_refl _
  | tail _ h ih =>
    have hs := h.cursor
    omega

/-! ### What comes back -/

variable {g : Goal} {gs upper rest : List Goal} {t : Token}

lemma Step.goals_of_takes {k : Goal.Take} (h : Step ts m m') (hg : m.goals = g :: gs)
    (ht : ts[m.cursor]? = some t) (hk : Goal.Takes t.kind g k) :
    ∃ a, m'.goals = k.goals m.draft t a ++ gs := by
  obtain ⟨g', gs', t', hg', ht', h⟩ := h.cases
  obtain ⟨rfl, rfl⟩ := List.cons.inj (hg.symm.trans hg')
  obtain rfl := Option.some.inj (ht.symm.trans ht')
  obtain ⟨d, hm, -⟩ | ⟨d, new, hm, h⟩ := h
  · rw [hk.meet_eq] at hm
    exact absurd hm k.on_ne_pass
  · rw [hk.meet_eq] at hm
    obtain ⟨a, rfl⟩ := Goal.Take.goals_of_on hm
    obtain ⟨-, -, rfl⟩ | ⟨-, -, hn, rfl⟩ := h
    · exact ⟨a, rfl⟩
    · exact ⟨a, by rw [hn]; rfl⟩

lemma Step.takes_of_want {w : Wanted} (h : Step ts m m') (hg : m.goals = g :: gs)
    (hw : g.otherwise = .want w) :
    ∃ t k a, Goal.Takes t.kind g k ∧ m'.goals = k.goals m.draft t a ++ gs := by
  obtain ⟨g', gs', t, hg', ht, hc⟩ := h.cases
  obtain ⟨rfl, rfl⟩ := List.cons.inj (hg.symm.trans hg')
  obtain ⟨d, hm, -⟩ | ⟨d, new, hm, -⟩ := hc
  · have ho := Goal.otherwise_of_pass hm
    rw [hw] at ho
    cases ho
  · obtain ⟨k, hk, -⟩ := Goal.takes_of_meet hm
    obtain ⟨a, ha⟩ := h.goals_of_takes hg ht hk
    exact ⟨t, k, a, hk, ha⟩

lemma Step.goals_append (h : Step ts m m') (hg : m.goals = g :: gs) :
    ∃ new, m'.goals = new ++ gs := by
  obtain ⟨g', gs', t, hg', -, h⟩ := h.cases
  obtain ⟨rfl, rfl⟩ := List.cons.inj (hg.symm.trans hg')
  obtain ⟨d, -, rfl⟩ | ⟨d, new, -, ⟨-, -, rfl⟩ | ⟨-, -, -, rfl⟩⟩ := h
  · exact ⟨[], rfl⟩
  · exact ⟨new, rfl⟩
  · exact ⟨[], rfl⟩

/-- **What is below comes up**: a parse gets no lower than `rest` without being before all of it. -/
lemma Reaches.exists_rest {last : Moment} (h : Reaches ts m last) (hg : m.goals = upper ++ rest)
    (hl : last.goals.length ≤ rest.length) :
    ∃ m', Reaches ts m m' ∧ m'.goals = rest ∧ Reaches ts m' last := by
  induction h using Relation.ReflTransGen.head_induction_on generalizing upper with
  | refl =>
    rw [hg, List.length_append] at hl
    have hu : upper = [] := List.eq_nil_of_length_eq_zero (by omega)
    exact ⟨last, .refl, by simp [hg, hu], .refl⟩
  | @head m m₁ hs hr ih =>
    cases upper with
    | nil => exact ⟨m, .refl, hg, .head hs hr⟩
    | cons g upper =>
      obtain ⟨new, hnew⟩ := hs.goals_append hg
      obtain ⟨m', h₁, hg', h₂⟩ := ih (hnew.trans (List.append_assoc new upper rest).symm)
      exact ⟨m', .head hs h₁, hg', h₂⟩

lemma Reaches.exists_step {last : Moment} (h : Reaches ts m last) (hg : m.goals = g :: rest)
    (hl : last.goals.length ≤ rest.length) : ∃ m', Step ts m m' ∧ Reaches ts m' last := by
  obtain rfl | ⟨m', hs, hr⟩ := Relation.ReflTransGen.cases_head h
  · rw [hg, List.length_cons] at hl
    omega
  · exact ⟨m', hs, hr⟩

/-- **A goal that a row leaves behind comes up** before what was below the goal of the row. -/
lemma exists_comesBack_of_takes {last : Moment} {k : Goal.Take} {g' : Goal} {inner : List Goal}
    (hg : m.goals = g :: rest) (ht : ts[m.cursor]? = some t) (hk : Goal.Takes t.kind g k)
    (hn : ∀ a, k.goals m.draft t a = upper ++ g' :: inner) (h : Reaches ts m last)
    (hl : last.goals.length ≤ rest.length) :
    ∃ m', m'.goals = g' :: (inner ++ rest) ∧ ComesBack ts m m' ∧ Reaches ts m' last := by
  obtain ⟨m₁, hs, hr⟩ := h.exists_step hg hl
  obtain ⟨a, ha⟩ := hs.goals_of_takes hg ht hk
  rw [hn, List.append_assoc, List.cons_append] at ha
  have hlow : last.goals.length ≤ (g' :: (inner ++ rest)).length := by
    rw [List.length_cons, List.length_append]
    omega
  obtain ⟨m', h₁, hg', h₂⟩ := hr.exists_rest ha hlow
  exact ⟨m', hg', ⟨.head' hs h₁, g, g', inner, rest, hg, hg'⟩, h₂⟩

lemma Step.naming {group : List Token} (h : Step ts m m') (hn : Grammar.Naming group gs)
    (hm : gs ≠ [.moreGroups]) (hg : m.goals = gs ++ rest) :
    ∃ group' gs', Grammar.Naming group' gs' ∧ m'.goals = gs' ++ rest := by
  cases hn with
  | name =>
    obtain ⟨t, k, a, hk, ha⟩ := h.takes_of_want hg rfl
    cases hk with
    | name => exact ⟨_, _, .moreNames, ha⟩
  | moreNames =>
    obtain ⟨t, k, a, hk, ha⟩ := h.takes_of_want hg rfl
    cases hk with
    | comma => exact ⟨_, _, .name, ha⟩
    | colon => exact ⟨_, _, .type, ha⟩
  | type =>
    obtain ⟨t, k, a, hk, ha⟩ := h.takes_of_want hg rfl
    cases hk with
    | integer => exact ⟨_, _, .closeGroup, ha⟩
  | closeGroup =>
    obtain ⟨t, k, a, hk, ha⟩ := h.takes_of_want hg rfl
    cases hk with
    | endGroup => exact ⟨[], _, .moreGroups rfl, ha⟩
  | moreGroups => exact absurd rfl hm

/-- A group that has begun is closed before what is below the declarations comes up. -/
lemma Reaches.exists_moreGroups {last : Moment} {group : List Token} (h : Reaches ts m last)
    (hn : Grammar.Naming group gs) (hg : m.goals = gs ++ rest)
    (hl : last.goals.length ≤ rest.length) :
    ∃ m', m'.goals = .moreGroups :: rest ∧ Reaches ts m m' ∧ Reaches ts m' last := by
  induction h using Relation.ReflTransGen.head_induction_on generalizing group gs with
  | refl =>
    rw [hg, List.length_append] at hl
    cases hn <;> simp only [List.length_cons, List.length_nil] at hl <;> omega
  | @head m m₁ hs hr ih =>
    by_cases hm : gs = [.moreGroups]
    · exact ⟨m, by rw [hg, hm]; rfl, .refl, .head hs hr⟩
    · obtain ⟨group', gs', hn', hg'⟩ := hs.naming hn hm hg
      obtain ⟨m', hm', h₁, h₂⟩ := ih hn' hg'
      exact ⟨m', hm', .head hs h₁, h₂⟩

/-- **What goes round**: each repetition comes back after its separator, and so do commands inside
loops and compounds and factors inside parentheses, before the parse gets to what was below
them. -/
theorem exists_comesBack {last : Moment} (hg : m.goals = g :: rest) (ht : ts[m.cursor]? = some t)
    (hk : t.kind ∈ g.comesBackAt) (h : Reaches ts m last)
    (hl : last.goals.length ≤ rest.length) :
    ∃ m' g' inner, m'.goals = g' :: (inner ++ rest) ∧ g'.bare = g.bare ∧ ComesBack ts m m' ∧
      Reaches ts m' last := by
  -- Most come back because the row that takes the token leaves them behind.
  have row : ∀ {k} (upper inner : List Goal), Goal.Takes t.kind g k →
      (∀ a, k.goals m.draft t a = upper ++ g :: inner) →
      ∃ m' g' inner, m'.goals = g' :: (inner ++ rest) ∧ g'.bare = g.bare ∧ ComesBack ts m m' ∧
        Reaches ts m' last := fun _ _ hk hn => by
    obtain ⟨m', hg', hb, hr⟩ := exists_comesBack_of_takes hg ht hk hn h hl
    exact ⟨m', g, _, hg', rfl, hb, hr⟩
  cases g with
  | moreNames group =>
    have hc : t.kind = .comma := by simpa [Goal.comesBackAt] using hk
    obtain ⟨m₁, hs, hr⟩ := h.exists_step hg hl
    obtain ⟨a, ha⟩ := hs.goals_of_takes hg ht (.comma hc)
    obtain ⟨m₂, hs₂, hr₂⟩ := hr.exists_step ha hl
    obtain ⟨x, k, a, hk, ha₂⟩ := hs₂.takes_of_want ha rfl
    cases hk with
    | name =>
      exact ⟨m₂, .moreNames (group ++ [x]), [], ha₂, rfl,
        ⟨.tail (.single hs) hs₂, _, _, [], rest, hg, ha₂⟩, hr₂⟩
  | moreGroups =>
    have hi : t.kind = .identifier := by simpa [Goal.comesBackAt] using hk
    obtain ⟨m₁, hs, hr⟩ := h.exists_step hg hl
    obtain ⟨a, ha⟩ := hs.goals_of_takes hg ht (.nextGroup hi)
    obtain ⟨m', hg', h₁, h₂⟩ := hr.exists_moreGroups .moreNames ha hl
    exact ⟨m', .moreGroups, [], hg', rfl, ⟨.head' hs h₁, _, _, [], rest, hg, hg'⟩, h₂⟩
  | moreCommands =>
    have hs : t.kind = .semicolon := by simpa [Goal.comesBackAt] using hk
    exact row [.command] [] (.nextCommand hs) fun _ => rfl
  | moreTerms =>
    have ho : t.kind = .plus ∨ t.kind = .minus := by simpa [Goal.comesBackAt] using hk
    rcases ho with ho | ho
    · exact row (Goal.term ++ [.emit (.operate .add)]) [] (.add ho) fun _ => rfl
    · exact row (Goal.term ++ [.emit (.operate .subtract)]) [] (.subtract ho) fun _ => rfl
  | moreFactors =>
    have ho : t.kind = .star ∨ t.kind = .slash := by simpa [Goal.comesBackAt] using hk
    rcases ho with ho | ho
    · exact row [.factor, .emit (.operate .multiply)] [] (.multiply ho) fun _ => rfl
    · exact row [.factor, .emit (.operate .divide)] [] (.divide ho) fun _ => rfl
  | command =>
    have hc : t.kind = .whileKw ∨ t.kind = .beginKw := by simpa [Goal.comesBackAt] using hk
    rcases hc with hc | hc
    · exact row (Goal.expression ++ [.comparison,
        .emit (.jumpIfFalse m.draft.newLabel.2.newLabel.1), .token .doKw]) _ (.loop hc) fun _ => rfl
    · exact row [] [.moreCommands, .token .endKw] (.compound hc) fun _ => rfl
  | factor =>
    have hp : t.kind = .leftParen := by simpa [Goal.comesBackAt] using hk
    exact row [] _ (.parens hp) fun _ => rfl
  | _ => simp [Goal.comesBackAt] at hk

/-! ### The cursor stays inside -/

/-- The cursor is inside the tokens, and the end of input is still wanted unless it is there. -/
structure Sound (ts : List Token) (m : Moment) : Prop where
  inside : m.cursor < ts.length
  goals : (∃ us, m.goals = us ++ [.token .eof] ∧ .token .eof ∉ us) ∨
    m.goals = [] ∧ m.cursor + 1 = ts.length

lemma sound_start (h : EndsOnce ts) (d : Draft) : Sound ts (start d) := by
  refine ⟨?_, .inl ⟨Goal.program.dropLast, rfl, by decide⟩⟩
  obtain ⟨us, e, rfl, -⟩ := h
  simp [start]

lemma Sound.of_cons {g : Goal} {gs : List Goal} (hs : Sound ts m) (hg : m.goals = g :: gs) :
    g = .token .eof ∧ gs = [] ∨
      g ≠ .token .eof ∧ ∃ us, gs = us ++ [.token .eof] ∧ .token .eof ∉ us := by
  obtain ⟨us, hu, hn⟩ | ⟨hn, -⟩ := hs.goals
  · rw [hg] at hu
    cases us with
    | nil => exact .inl (List.cons.inj hu)
    | cons x us =>
      obtain ⟨rfl, hgs⟩ := List.cons.inj hu
      rw [List.mem_cons, not_or] at hn
      exact .inr ⟨Ne.symm hn.1, us, hgs, hn.2⟩
  · rw [hg] at hn
    cases hn

/-- **A step** keeps the cursor inside the tokens. -/
lemma Sound.step (hs : Sound ts m) (he : EndsOnce ts) (h : Step ts m m') : Sound ts m' := by
  have hin := hs.inside
  obtain ⟨g, gs, t, hg, ht, h⟩ := h.cases
  have hend := he.kind_eq_eof_iff ht
  rcases hs.of_cons hg with ⟨rfl, rfl⟩ | ⟨hne, us, rfl, hn⟩
  · -- The last goal takes the end of input and nothing else.
    obtain ⟨d, hm, rfl⟩ | ⟨d, new, hm, ⟨hk, -, rfl⟩ | ⟨hk, -, -, rfl⟩⟩ := h
    · cases Goal.otherwise_of_pass hm
    · obtain ⟨_, htake, -⟩ := Goal.takes_of_meet hm
      cases htake with
      | token he => exact absurd he hk
    · exact ⟨hin, .inr ⟨rfl, hend.1 hk⟩⟩
  · obtain ⟨d, -, rfl⟩ | ⟨d, new, -, ⟨hk, hnew, rfl⟩ | ⟨-, hg', -, -⟩⟩ := h
    · exact ⟨hin, .inl ⟨us, rfl, hn⟩⟩
    · have hlast : ¬ m.cursor + 1 = ts.length := fun hc => hk (hend.2 hc)
      have hmoved : m.cursor + 1 < ts.length := by omega
      refine ⟨hmoved, .inl ⟨new ++ us, by simp, ?_⟩⟩
      rw [List.mem_append, not_or]
      exact ⟨hnew, hn⟩
    · exact absurd hg' hne

/-- **A run** keeps the cursor inside the tokens. -/
lemma Sound.reaches (hs : Sound ts m) (he : EndsOnce ts) (h : Reaches ts m m') : Sound ts m' := by
  induction h with
  | refl => exact hs
  | tail _ h ih => exact ih.step he h

lemma Sound.next_ne_astray (hs : Sound ts m) : m.next ts ≠ .error .astray := by
  unfold next
  rw [List.getElem?_eq_getElem hs.inside]
  split
  · simp
  · simp only
    split <;> simp

end Moment

/-! ### The same parse -/

open Grammar

def Ending.of : Except Stop Draft → Ending
  | .ok d => .finished d
  | .error s => .stopped s

namespace Moment

variable {ts : List Token} {m m' : Moment} {d : Draft}

lemma drop_cursor {t : Token} {c : Nat} (h : ts[c]? = some t) :
    ts.drop c = t :: ts.drop (c + 1) := by
  obtain ⟨hl, rfl⟩ := List.getElem?_eq_some_iff.1 h
  exact List.drop_eq_getElem_cons hl

lemma Step.run_eq (hs : Sound ts m) (he : EndsOnce ts) (h : Step ts m m') :
    m.toParse.run (ts.drop m.cursor) = m'.toParse.run (ts.drop m'.cursor) := by
  obtain ⟨g, gs, t, hg, ht, h⟩ := h.cases
  have hend := he.kind_eq_eof_iff ht
  have hlast := hs.of_cons hg
  obtain ⟨⟨goals, d⟩, c⟩ := m
  obtain rfl : goals = g :: gs := hg
  obtain ⟨d', hm, rfl⟩ | ⟨d', new, hm, ⟨-, -, rfl⟩ | ⟨hk, rfl, rfl, rfl⟩⟩ := h
  · rw [drop_cursor ht]
    exact run_pass hm
  · rw [drop_cursor ht]
    exact run_take hm
  · obtain rfl : gs = [] := by simpa using hlast
    rw [drop_cursor ht, hend.1 hk, List.drop_length]
    exact run_take hm

lemma ending_of_next {e : Ending} (hs : Sound ts m) (h : m.next ts = .error e) :
    e = .of ((m.toParse.run (ts.drop m.cursor)).map Parse.draft) := by
  have ht := List.getElem?_eq_getElem hs.inside
  obtain ⟨⟨goals, d⟩, c⟩ := m
  rw [drop_cursor ht]
  unfold next at h
  split at h
  · rename_i hg
    -- With no goal left, the parser takes no notice of the end of input.
    obtain rfl : goals = [] := hg
    have hl : c + 1 = ts.length := by simpa using hs.goals
    cases h
    rw [hl, List.drop_length]
    rfl
  · rename_i g gs hg
    obtain rfl : goals = g :: gs := hg
    rw [ht] at h
    simp only at h
    split at h
    · rename_i s hm
      cases h
      rw [run_goal, hm]
      rfl
    · cases h
    · cases h

/-- **The parse with a cursor** ends as the parser does. -/
theorem run_eq (hs : Sound ts m) (he : EndsOnce ts) :
    m.run ts = .of ((m.toParse.run (ts.drop m.cursor)).map Parse.draft) := by
  fun_induction run ts m with
  | case1 m m' h ih => rw [ih (hs.step he h), Step.run_eq hs he h]
  | case2 m e h => exact ending_of_next hs h

lemma reaches_of_step {p q : Parse} {c : Nat} {t : Token} (ht : ts[c]? = some t)
    (hk : t.kind ≠ .eof) (ho : Open p.goals) (h : p.step t = .ok q) :
    Reaches ts ⟨p, c⟩ ⟨q, c + 1⟩ := by
  obtain ⟨gs, d⟩ := p
  rw [Parse.step] at h
  induction gs, d, h using settle_ok_induction with
  | done d _ hp => simp [Open] at ho
  | take g gs d _ d' new hr hp =>
    refine .single ?_
    subst hp
    have hmoved := Goal.moved_of_take hr c
    simp [Step, next, ht, hr, hmoved, hk]
  | pass g gs d _ d' _ hr ih =>
    refine .head ?_ (ih (ho.of_pass hr))
    simp [Step, next, ht, hr]

/-- **The parser's states** are moments of the parse with a cursor, which counts the tokens that
have been read. -/
theorem reaches_of_run {p : Parse} {k : Nat} (he : EndsOnce ts) (hk : k < ts.length)
    (h : Parse.run ⟨Goal.program, d⟩ (ts.take k) = .ok p) : Reaches ts (start d) ⟨p, k⟩ := by
  induction k generalizing p with
  | zero =>
    cases h
    exact .refl
  | succ k ih =>
    have hlt : k < ts.length := Nat.lt_of_succ_lt hk
    have ht := List.getElem?_eq_getElem hlt
    rw [List.take_add_one, ht, Option.toList_some, Parse.run_append] at h
    obtain ⟨q, hq, h⟩ := bind_eq_ok.1 h
    obtain ⟨q', hq', h⟩ := bind_eq_ok.1 h
    cases h
    have hkind : ts[k].kind ≠ .eof := fun hk' => by
      have hl := (he.kind_eq_eof_iff ht).1 hk'
      omega
    have ho := (run_sound open_program (he.kind_ne_of_mem_take hlt) hq).1
    exact (ih hlt hq).trans (reaches_of_step ht hkind ho hq')

/-- **The parse ends, inside the tokens.** The tokens of a text have the end of input once and last.
Over such tokens the states of the parser are moments of the parse with a cursor. In each of its
moments there is a token at the cursor; the cursor never goes back, and moves whenever the parse
goes round; all goals are met only before the end of input. The parse cannot go on for ever, and it
ends as the parser does. -/
theorem terminates_in_bounds :
    (∀ source ts, tokenize source = .ok ts → EndsOnce ts) ∧
    ∀ (ts : List Token) (d : Draft), EndsOnce ts →
      (∀ k p, k < ts.length → Parse.run ⟨Goal.program, d⟩ (ts.take k) = .ok p →
        Reaches ts (start d) ⟨p, k⟩) ∧
      (∀ m, Reaches ts (start d) m →
        m.cursor < ts.length ∧ m.next ts ≠ .error .astray ∧
        (m.goals = [] → m.cursor + 1 = ts.length) ∧
        ∀ m', (Reaches ts m m' → m.cursor ≤ m'.cursor) ∧
          (ComesBack ts m m' → m.cursor < m'.cursor)) ∧
      WellFounded (fun m' m => Step ts m m') ∧
      (start d).run ts = .of (parseProgram d ts) := by
  refine ⟨fun source ts h => ?_, fun ts d he => ⟨?_, fun m hm => ?_, wellFounded_step ts, ?_⟩⟩
  · obtain ⟨us, e, rfl, hu, -⟩ := tokenize_ok h
    exact ⟨us, e, rfl, hu⟩
  · exact fun k p hk hp => reaches_of_run he hk hp
  · have hs := (sound_start he d).reaches he hm
    refine ⟨hs.inside, hs.next_ne_astray, fun hg => ?_, fun m' => ⟨?_, ?_⟩⟩
    · simpa [hg] using hs.goals
    · exact fun h => h.cursor_le
    · exact fun h => h.cursor_lt
  · exact run_eq (sound_start he d) he

/-- A program with a command inside another one, and the empty command twice. -/
def nested : String := "program p;begin begin;end end."

def nestedTokens : List Token :=
  [⟨.programKw, "program", ⟨1, 1⟩⟩, ⟨.identifier, "p", ⟨1, 9⟩⟩, ⟨.semicolon, ";", ⟨1, 10⟩⟩,
    ⟨.beginKw, "begin", ⟨1, 11⟩⟩, ⟨.beginKw, "begin", ⟨1, 17⟩⟩, ⟨.semicolon, ";", ⟨1, 22⟩⟩,
    ⟨.endKw, "end", ⟨1, 23⟩⟩, ⟨.endKw, "end", ⟨1, 27⟩⟩, ⟨.dot, ".", ⟨1, 30⟩⟩, ⟨.eof, "", ⟨1, 31⟩⟩]

def inside (goals : List Goal) (cursor : Nat) : Moment :=
  ⟨⟨goals ++ Goal.program.drop 7, (Draft.onto #[]).emit .start⟩, cursor⟩

theorem terminates_in_bounds_nested :
    tokenize nested = .ok nestedTokens ∧ EndsOnce nestedTokens ∧
    Reaches nestedTokens (start (.onto #[])) (inside [.command] 4) ∧
    ComesBack nestedTokens (inside [.command] 4)
      (inside [.command, .moreCommands, .token .endKw] 5) ∧
    ComesBack nestedTokens (inside [.moreCommands, .token .endKw] 5)
      (inside [.moreCommands, .token .endKw] 6) ∧
    (inside [.command] 4).cursor <
      (inside [.command, .moreCommands, .token .endKw] 5).cursor ∧
    (inside [.moreCommands, .token .endKw] 5).cursor <
      (inside [.moreCommands, .token .endKw] 6).cursor ∧
    (start (.onto #[])).run nestedTokens =
      .finished ((Draft.onto #[]).emit .start |>.emit .halt) := by
  have ht : tokenize nested = .ok nestedTokens := by decide +kernel
  have he := terminates_in_bounds.1 _ _ ht
  obtain ⟨hstates, hm, -, hrun⟩ := terminates_in_bounds.2 nestedTokens (.onto #[]) he
  have h₁ : Reaches nestedTokens (start (.onto #[])) (inside [.command] 4) :=
    hstates 4 _ (by decide) rfl
  have h₂ : Step nestedTokens (inside [.command] 4)
      (inside [.command, .moreCommands, .token .endKw] 5) := rfl
  have h₃ : Step nestedTokens (inside [.command, .moreCommands, .token .endKw] 5)
      (inside [.moreCommands, .token .endKw] 5) := rfl
  have h₄ : Step nestedTokens (inside [.moreCommands, .token .endKw] 5)
      (inside [.command, .moreCommands, .token .endKw] 6) := rfl
  have h₅ : Step nestedTokens (inside [.command, .moreCommands, .token .endKw] 6)
      (inside [.moreCommands, .token .endKw] 6) := rfl
  have hnest : ComesBack nestedTokens (inside [.command] 4)
      (inside [.command, .moreCommands, .token .endKw] 5) :=
    ⟨.single h₂, _, _, [.moreCommands, .token .endKw], _, rfl, rfl⟩
  have hagain : ComesBack nestedTokens (inside [.moreCommands, .token .endKw] 5)
      (inside [.moreCommands, .token .endKw] 6) :=
    ⟨.tail (.single h₄) h₅, _, _, [], _, rfl, rfl⟩
  refine ⟨ht, he, h₁, hnest, hagain, ((hm _ h₁).2.2.2 _).2 hnest, ?_, hrun.trans rfl⟩
  exact ((hm _ ((h₁.tail h₂).tail h₃)).2.2.2 _).2 hagain

end Moment

end OnePass
