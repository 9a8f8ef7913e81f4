import OnePass.Proofs.Machine
import OnePass.Proofs.Translation

/-!
The machine does what the program means.

From the beginning of the code of a command the machine comes to a `halt` if and only if the
command ends normally and the machine comes to the same `halt` from the end of that code. For the
loops, one direction is by induction on the number of steps and the other by induction on the
evaluation.
-/

namespace OnePass

open Machine

universe u

/-! ### Labels -/

@[simp] lemma Expr.anchors_code (e : Expr Nat) : anchors e.code = [] := by
  induction e with
  | name a => rfl
  | literal n => rfl
  | operate op l r ihl ihr => simp [code, anchors, ihl, ihr]

lemma Command.mem_anchors_code {c : Command Nat} {n : Nat} {l : Label}
    (h : l ∈ anchors (c.code n)) : n < l.number ∧ l.number ≤ n + 2 * c.loops := by
  induction c generalizing n with
  | loop e body ih =>
    simp only [loops]
    have h' : l = ⟨n + 1⟩ ∨ l ∈ anchors (body.code (n + 2)) ∨ l = ⟨n + 2⟩ := by
      simpa [code, anchors] using h
    rcases h' with rfl | h' | rfl
    · simp only
      omega
    · have hb := ih h'
      omega
    · simp only
      omega
  | seq c c' ih ih' =>
    rw [code, anchors_append, List.mem_append] at h
    simp only [loops]
    rcases h with h | h
    · have hc := ih h
      omega
    · have hc := ih' h
      omega
  | empty => simp [code, anchors] at h
  | read a => simp [code, anchors] at h
  | assign a e => simp [code, anchors] at h
  | write e => simp [code, anchors] at h

lemma Command.nodup_anchors_code (c : Command Nat) (n : Nat) : (anchors (c.code n)).Nodup := by
  induction c generalizing n with
  | loop e body ih =>
    have hb : ∀ l ∈ anchors (body.code (n + 2)), n + 2 < l.number :=
      fun l hl => (mem_anchors_code hl).1
    have h₁ : ⟨n + 1⟩ ∉ anchors (body.code (n + 2)) := fun h => absurd (hb _ h) (by simp)
    have h₂ : ⟨n + 2⟩ ∉ anchors (body.code (n + 2)) := fun h => absurd (hb _ h) (by simp)
    have ha : anchors ((loop e body).code n) =
        ⟨n + 1⟩ :: (anchors (body.code (n + 2)) ++ [⟨n + 2⟩]) := by simp [code, anchors]
    rw [ha, List.nodup_cons, List.nodup_append]
    refine ⟨by simp [h₁], ih _, by simp, ?_⟩
    rintro a ha _ hb rfl
    exact h₂ (List.mem_singleton.1 hb ▸ ha)
  | seq c c' ih ih' =>
    rw [code, anchors_append, List.nodup_append]
    refine ⟨ih _, ih' _, fun a ha b hb => ?_⟩
    rintro rfl
    have h₁ := mem_anchors_code ha
    have h₂ := mem_anchors_code hb
    omega
  | empty => simp [code, anchors]
  | read a => simp [code, anchors]
  | assign a e => simp [code, anchors]
  | write e => simp [code, anchors]

/-! ### Running code -/

variable {D : Domain.{u}} {code : List Instruction} {final : Env D Nat} {pc k n : Nat}
  {stack : List D.Value} {s : Env D Nat}

lemma Expr.haltsIn_code (e : Expr Nat) (he : e.All (· < k)) (hc : At code pc e.code) :
    HaltsIn code final n ⟨pc, stack, k, s⟩ ↔ ∃ v m, e.eval s.store = some v ∧
      n = m + e.code.length ∧
      HaltsIn code final m ⟨pc + e.code.length, v :: stack, k, s⟩ := by
  induction e generalizing pc stack n with
  | name a =>
    rw [haltsIn_load hc.head he]
    simp [eval, Expr.code]
  | literal v =>
    rw [haltsIn_constant hc.head]
    simp [eval, Expr.code]
  | operate op l r ihl ihr =>
    have hlen : (Expr.operate op l r).code.length = l.code.length + r.code.length + 1 := by
      simp [Expr.code, Nat.add_assoc]
    have hop : code[pc + l.code.length + r.code.length]? = some (.operate op) := by
      have h := hc.right.head
      rwa [List.length_append, ← Nat.add_assoc] at h
    -- Forwards the run is cut into three, backwards it is put together from its end.
    constructor
    · intro h
      obtain ⟨a, m₁, ha, rfl, h₁⟩ := (ihl he.1 hc.left.left).1 h
      obtain ⟨b, m₂, hb, rfl, h₂⟩ := (ihr he.2 hc.left.right).1 h₁
      obtain ⟨m₃, v, hv, rfl, h₃⟩ := (haltsIn_operate hop).1 h₂
      refine ⟨v, m₃, by simp [eval, ha, hb, hv], by omega, ?_⟩
      rwa [hlen, ← Nat.add_assoc, ← Nat.add_assoc]
    · rintro ⟨v, m, hv, rfl, h⟩
      obtain ⟨a, ha, hv⟩ := Option.bind_eq_some_iff.1 hv
      obtain ⟨b, hb, hv⟩ := Option.bind_eq_some_iff.1 hv
      rw [hlen, ← Nat.add_assoc, ← Nat.add_assoc] at h
      have h₂ := (haltsIn_operate hop).2 ⟨m, v, hv, rfl, h⟩
      have h₁ := (ihr he.2 hc.left.right).2 ⟨b, _, hb, rfl, h₂⟩
      exact (ihl he.1 hc.left.left).2 ⟨a, _, ha, by omega, h₁⟩

/-- Commands without a loop in them take as many steps as they have instructions. -/
def Straight (code : List Instruction) (final : Env D Nat) (k : Nat) (c : Command Nat) : Prop :=
  ∀ {pc j n : Nat} {stack : List D.Value} {s : Env D Nat}, At code pc (c.code j) →
    (HaltsIn code final n ⟨pc, stack, k, s⟩ ↔ ∃ s' m, Exec c s s' ∧ n = m + (c.code j).length ∧
      HaltsIn code final m ⟨pc + (c.code j).length, stack, k, s'⟩)

lemma straight_assign {a : Nat} {e : Expr Nat} (ha : a < k) (he : e.All (· < k)) :
    Straight code final k (.assign a e) := by
  intro pc j n stack s hc
  have hlen : ((Command.assign a e).code j).length = e.code.length + 1 := by simp [Command.code]
  rw [hlen, e.haltsIn_code he hc.left]
  constructor
  · rintro ⟨v, m, hv, rfl, h⟩
    obtain ⟨m', rfl, h'⟩ := (haltsIn_store hc.right.head ha).1 h
    exact ⟨_, m', .assign hv, by omega, h'⟩
  · rintro ⟨s', m, hs, rfl, h⟩
    cases hs with
    | assign hv => exact ⟨_, m + 1, hv, by omega, (haltsIn_store hc.right.head ha).2 ⟨m, rfl, h⟩⟩

lemma straight_write {e : Expr Nat} (he : e.All (· < k)) : Straight code final k (.write e) := by
  intro pc j n stack s hc
  have hlen : ((Command.write e).code j).length = e.code.length + 1 := by simp [Command.code]
  rw [hlen, e.haltsIn_code he hc.left]
  constructor
  · rintro ⟨v, m, hv, rfl, h⟩
    obtain ⟨m', rfl, h'⟩ := (haltsIn_write hc.right.head).1 h
    exact ⟨_, m', .write hv, by omega, h'⟩
  · rintro ⟨s', m, hs, rfl, h⟩
    cases hs with
    | write hv => exact ⟨_, m + 1, hv, by omega, (haltsIn_write hc.right.head).2 ⟨m, rfl, h⟩⟩

lemma straight_read {a : Nat} (ha : a < k) : Straight code final k (.read a) := by
  intro pc j n stack s hc
  rw [haltsIn_read hc.head]
  constructor
  · rintro ⟨m, v, s', hr, rfl, h⟩
    obtain ⟨m', rfl, h'⟩ := (haltsIn_store hc.tail.head ha).1 h
    exact ⟨_, m', .read hr, rfl, h'⟩
  · rintro ⟨s', m, hs, rfl, h⟩
    cases hs with
    | read hr => exact ⟨m + 1, _, _, hr, rfl, (haltsIn_store hc.tail.head ha).2 ⟨m, rfl, h⟩⟩

/-! ### Loops -/

/-- The parts of a loop and where they are. -/
structure LoopAt (code : List Instruction) (pc j : Nat) (e : Expr Nat) (body : Command Nat) :
    Prop where
  start : code[pc]? = some (.anchor ⟨j + 1⟩)
  condition : At code (pc + 1) e.code
  leave : code[pc + 1 + e.code.length]? = some (.jumpIfFalse ⟨j + 2⟩)
  inside : At code (pc + 1 + e.code.length + 1) (body.code (j + 2))
  back : code[pc + 1 + e.code.length + 1 + (body.code (j + 2)).length]? = some (.jump ⟨j + 1⟩)
  finish : code[pc + 1 + e.code.length + 1 + (body.code (j + 2)).length + 1]? =
    some (.anchor ⟨j + 2⟩)

section

variable {e : Expr Nat} {body : Command Nat} {j : Nat}

lemma loopAt (h : At code pc ((Command.loop e body).code j)) : LoopAt code pc j e body := by
  have h' : At code pc (.anchor ⟨j + 1⟩ :: (e.code ++ (.jumpIfFalse ⟨j + 2⟩ ::
      (body.code (j + 2) ++ [.jump ⟨j + 1⟩, .anchor ⟨j + 2⟩])))) := by
    simpa [Command.code] using h
  have hr := h'.tail.right.tail.right
  exact ⟨h'.head, h'.tail.left, h'.tail.right.head, h'.tail.right.tail.left, hr.head,
    hr.tail.head⟩

lemma length_loop (pc : Nat) : pc + ((Command.loop e body).code j).length =
    pc + 1 + e.code.length + 1 + (body.code (j + 2)).length + 1 + 1 := by
  simp [Command.code]
  omega

lemma LoopAt.haltsIn_start (hl : LoopAt code pc j e body) (hd : (anchors code).Nodup)
    (he : e.All (· < k)) :
    HaltsIn code final n ⟨pc, stack, k, s⟩ ↔ ∃ v m, e.eval s.store = some v ∧
      n = m + e.code.length + 2 ∧
      HaltsIn code final m ⟨if D.truthy v then pc + 1 + e.code.length + 1
        else pc + 1 + e.code.length + 1 + (body.code (j + 2)).length + 1, stack, k, s⟩ := by
  rw [haltsIn_anchor hl.start]
  constructor
  · rintro ⟨m₁, rfl, h₁⟩
    obtain ⟨v, m₂, hv, rfl, h₂⟩ := (e.haltsIn_code he hl.condition).1 h₁
    obtain ⟨m₃, rfl, h₃⟩ := (haltsIn_jumpIfFalse hd hl.leave hl.finish).1 h₂
    exact ⟨v, m₃, hv, by omega, h₃⟩
  · rintro ⟨v, m, hv, rfl, h⟩
    have h₂ := (haltsIn_jumpIfFalse hd hl.leave hl.finish).2 ⟨m, rfl, h⟩
    have h₁ := (e.haltsIn_code he hl.condition).2 ⟨v, _, hv, rfl, h₂⟩
    exact ⟨_, by omega, h₁⟩

end

/-! ### Commands -/

/-- **What the machine does, the program means**: a run that halts has first done what the command
does. -/
theorem Command.exec_of_haltsIn (hd : (anchors code).Nodup) (c : Command Nat) {j : Nat}
    (hk : c.All (· < k)) (hc : At code pc (c.code j))
    (h : HaltsIn code final n ⟨pc, stack, k, s⟩) :
    ∃ s' m, Exec c s s' ∧ m ≤ n ∧
      HaltsIn code final m ⟨pc + (c.code j).length, stack, k, s'⟩ := by
  induction c generalizing pc j n s with
  | empty => exact ⟨s, n, .empty, Nat.le_refl n, h⟩
  | assign a e =>
    obtain ⟨s', m, hx, rfl, h'⟩ := (straight_assign hk.1 hk.2 hc).1 h
    exact ⟨s', m, hx, by omega, h'⟩
  | read a =>
    obtain ⟨s', m, hx, rfl, h'⟩ := (straight_read hk hc).1 h
    exact ⟨s', m, hx, by omega, h'⟩
  | write e =>
    obtain ⟨s', m, hx, rfl, h'⟩ := (straight_write hk hc).1 h
    exact ⟨s', m, hx, by omega, h'⟩
  | seq c c' ih ih' =>
    obtain ⟨s₁, m₁, hx₁, hle₁, h₁⟩ := ih hk.1 hc.left h
    obtain ⟨s₂, m₂, hx₂, hle₂, h₂⟩ := ih' hk.2 hc.right h₁
    refine ⟨s₂, m₂, .seq hx₁ hx₂, by omega, ?_⟩
    rwa [Command.code, List.length_append, ← Nat.add_assoc]
  | loop e body ih =>
    have hl := loopAt hc
    -- each round takes some steps off the run
    induction n using Nat.strong_induction_on generalizing s with
    | _ n ihn =>
      obtain ⟨v, m, hv, rfl, h₁⟩ := (hl.haltsIn_start hd hk.1).1 h
      cases ht : D.truthy v with
      | false =>
        rw [ht] at h₁
        obtain ⟨m', rfl, h₂⟩ := (haltsIn_anchor hl.finish).1 h₁
        refine ⟨s, m', .done hv ht, by omega, ?_⟩
        rwa [length_loop]
      | true =>
        rw [ht] at h₁
        obtain ⟨s₁, m₁, hx₁, hle₁, h₂⟩ := ih hk.2 hl.inside h₁
        obtain ⟨m₂, rfl, h₃⟩ := (haltsIn_jump hd hl.back hl.start).1 h₂
        obtain ⟨s₂, m₃, hx₂, hle₂, h₄⟩ := ihn m₂ (by omega) h₃
        exact ⟨s₂, m₃, .again hv ht hx₁ hx₂, by omega, h₄⟩

/-- **What the program means, the machine does.** -/
theorem Exec.haltsIn_code {c : Command Nat} {s s' : Env D Nat} (hx : Exec c s s')
    (hd : (anchors code).Nodup) {pc j m : Nat} (hk : c.All (· < k)) (hc : At code pc (c.code j))
    (h : HaltsIn code final m ⟨pc + (c.code j).length, stack, k, s'⟩) :
    ∃ n, HaltsIn code final n ⟨pc, stack, k, s⟩ := by
  induction hx generalizing pc j m with
  | empty => exact ⟨m, h⟩
  | assign hv => exact ⟨_, (straight_assign hk.1 hk.2 hc).2 ⟨_, m, .assign hv, rfl, h⟩⟩
  | read hr => exact ⟨_, (straight_read hk hc).2 ⟨_, m, .read hr, rfl, h⟩⟩
  | write hv => exact ⟨_, (straight_write hk hc).2 ⟨_, m, .write hv, rfl, h⟩⟩
  | seq hx₁ hx₂ ih₁ ih₂ =>
    rw [Command.code, List.length_append, ← Nat.add_assoc] at h
    obtain ⟨n, hn⟩ := ih₂ hk.2 hc.right h
    exact ih₁ hk.1 hc.left hn
  | done hv ht =>
    have hl := loopAt hc
    rw [length_loop] at h
    have h₁ := (haltsIn_anchor hl.finish).2 ⟨m, rfl, h⟩
    exact ⟨_, (hl.haltsIn_start hd hk.1).2 ⟨_, _, hv, rfl, by rwa [ht]⟩⟩
  | again hv ht hx₁ hx₂ ih₁ ih₂ =>
    have hl := loopAt hc
    obtain ⟨n₂, h₂⟩ := ih₂ hk hc h
    have h₁ := (haltsIn_jump hd hl.back hl.start).2 ⟨n₂, rfl, h₂⟩
    obtain ⟨n₁, h₁'⟩ := ih₁ hk.2 hl.inside h₁
    exact ⟨_, (hl.haltsIn_start hd hk.1).2 ⟨_, _, hv, rfl, by rwa [ht]⟩⟩

/-! ### Programs -/

namespace Grammar

/-- The tree of a program with addresses for names. -/
def Program.resolved (P : Program) : Command Nat := P.tree.map (addressIn P.variableNames)

lemma Program.code_eq (P : Program) :
    P.code = (.start :: P.allocation) ++ (P.resolved.code 0 ++ [.halt]) := by
  rw [Program.code, Program.resolved, Program.tree, CommandTree.code_tree]
  simp

lemma Program.at_code (P : Program) :
    At P.code 0 ((.start :: P.allocation) ++ (P.resolved.code 0 ++ [.halt])) := by
  rw [← P.code_eq]
  exact List.prefix_rfl

lemma Program.allocate_mem_code (P : Program) {n : Nat} :
    .allocate n ∈ P.code ↔ P.declarations.isSome ∧ n = P.variableNames.length := by
  have hb := P.resolved.allocate_not_mem 0 n
  rw [P.code_eq]
  unfold Program.allocation Program.variableNames Program.names
  cases P.declarations <;> simp [hb]

lemma Program.nodup_anchors (P : Program) : (anchors P.code).Nodup := by
  have ha : anchors P.allocation = [] := by
    unfold Program.allocation
    cases P.declarations <;> simp [anchors]
  rw [P.code_eq]
  simpa [anchors, ha] using P.resolved.nodup_anchors_code 0

lemma Program.haltsIn_start (P : Program) :
    HaltsIn P.code final n (.initial s) ↔ ∃ m, n = m + (P.allocation.length + 1) ∧
      HaltsIn P.code final m ⟨P.allocation.length + 1, [], P.variableNames.length, s⟩ := by
  have h0 := P.at_code
  rw [State.initial, Machine.haltsIn_start h0.head]
  cases hd : P.declarations with
  | none =>
    have ha : P.allocation = [] := by simp [Program.allocation, hd]
    have hn : P.variableNames = [] := by simp [Program.variableNames, Program.names, hd]
    simp [ha, hn]
  | some ds =>
    have ha : P.allocation = [.allocate ds.names.length] := by simp [Program.allocation, hd]
    have hn : P.variableNames.length = 0 + ds.names.length := by
      simp [Program.variableNames, Program.names, hd]
    rw [ha] at h0
    rw [ha, hn]
    constructor
    · rintro ⟨m, rfl, h⟩
      obtain ⟨m', rfl, h'⟩ := (haltsIn_allocate h0.tail.head).1 h
      exact ⟨m', rfl, h'⟩
    · rintro ⟨m, rfl, h⟩
      exact ⟨m + 1, rfl, (haltsIn_allocate h0.tail.head).2 ⟨m, rfl, h⟩⟩

lemma Program.all_resolved {P : Program} (hP : P.WellNamed) :
    P.resolved.All (· < P.variableNames.length) := by
  have ha : ∀ x ∈ P.variableNames, addressIn P.variableNames x < P.variableNames.length :=
    fun x hx => List.idxOf_lt_length_iff.2 hx
  exact (P.body.all_tree hP.2).map ha

lemma Program.halts_iff_exec {P : Program} (hP : P.WellNamed) :
    Halts P.code (.initial s) final ↔ Exec P.resolved s final := by
  have hk := Program.all_resolved hP
  have hc := P.at_code.right
  have hh : P.code[P.allocation.length + 1 + (P.resolved.code 0).length]? = some .halt := by
    simpa using hc.right.head
  rw [List.length_cons, Nat.zero_add] at hc
  rw [halts_iff]
  simp only [P.haltsIn_start]
  constructor
  · rintro ⟨_, m, -, h⟩
    obtain ⟨s', m', hx, -, h'⟩ := P.resolved.exec_of_haltsIn P.nodup_anchors hk hc.left h
    obtain ⟨-, rfl⟩ := (haltsIn_halt hh).1 h'
    exact hx
  · intro hx
    obtain ⟨n, hn⟩ := hx.haltsIn_code P.nodup_anchors hk hc.left ((haltsIn_halt hh).2 ⟨rfl, rfl⟩)
    exact ⟨_, n, rfl, hn⟩

lemma single_addressIn {names : List String} {x : String} (hx : x ∈ names) :
    Single (addressIn names) x := by
  intro y hy
  exact ((List.idxOf_inj hx).1 hy.symm).symm

/-- Names in place of addresses: the values of the variables change alike, and the cells of no
variable keep theirs. -/
lemma Program.exec_resolved {P : Program} (hP : P.WellNamed) :
    Exec P.resolved s final ↔
      Exec P.tree (s.along (addressIn P.variableNames)) (final.along (addressIn P.variableNames)) ∧
        ∀ a, P.variableNames.length ≤ a → final.store a = s.store a := by
  have hp : ∀ x ∈ P.variableNames, Single (addressIn P.variableNames) x :=
    fun x => single_addressIn
  have hall : P.tree.All (· ∈ P.variableNames) := P.body.all_tree hP.2
  have hout : ∀ {s' : Env D Nat}, Exec P.resolved s s' →
      ∀ a, P.variableNames.length ≤ a → s'.store a = s.store a := by
    intro s' hx a ha
    refine (hx.of_map hp hall).2 a fun x hm => ?_
    have hlt : addressIn P.variableNames x < P.variableNames.length := List.idxOf_lt_length_iff.2 hm
    omega
  constructor
  · exact fun hx => ⟨(hx.of_map hp hall).1, hout hx⟩
  · rintro ⟨hx, hcells⟩
    obtain ⟨s', hs', hx'⟩ := hx.map hp hall rfl
    -- The cells of the names are fixed by `hs'`, and all others are left alone.
    have hstore : s'.store = final.store := by
      funext a
      by_cases ha : a < P.variableNames.length
      · have hi : addressIn P.variableNames P.variableNames[a] = a := hP.1.idxOf_getElem a ha
        have hv := congrFun (congrArg Env.store hs') P.variableNames[a]
        simpa [Env.along, hi] using hv
      · rw [hout hx' a (by omega), hcells a (by omega)]
    have hin : s'.input = final.input := congrArg (fun t : Env D String => t.input) hs'
    have hout' : s'.output = final.output := congrArg (fun t : Env D String => t.output) hs'
    rwa [← Env.ext hstore hin hout']

/-- The machine halts on the code if and only if the evaluation of the program's tree ends
normally, with the same output, the same rest of the input and the same values in the cells of the
variables. The other cells keep theirs. -/
def Implements (code : List Instruction) (P : Program) : Prop :=
  ∀ (D : Domain.{u}) (cells m : Nat → D.Value) (input r : D.Input) (o : List D.Value),
    Halts code (.initial ⟨cells, input, []⟩) ⟨m, r, o⟩ ↔
      Exec P.tree ⟨cells ∘ addressIn P.variableNames, input, []⟩
          ⟨m ∘ addressIn P.variableNames, r, o⟩ ∧
        ∀ a, P.variableNames.length ≤ a → m a = cells a

lemma Program.implements_code {P : Program} (hP : P.WellNamed) : Implements.{u} P.code P := by
  intro D cells m input r o
  rw [Program.halts_iff_exec hP, Program.exec_resolved hP]
  rfl

/-- **Semantic preservation**: a text that is compiled has one derivation, and its code implements
the program of that derivation, whatever the values, operations, cells and inputs are. -/
theorem compile_preserves (source : String) (code : List Instruction)
    (h : compile source = .ok code) :
    ∃ (P : Program) (e : Token), tokenize source = .ok (P.yield ++ [e]) ∧ e.kind = .eof ∧
      (∀ Q : Program, Q.yield = P.yield → Q = P) ∧ Implements.{u} code P := by
  obtain ⟨table, ht, hc⟩ := map_eq_ok.1 h
  obtain ⟨P, e, htok, hP, -, hcode⟩ := exists_program_of_compileInto ht
  have hcode' : code = P.code := by
    rw [← hc, hcode]
    simp
  refine ⟨P, e.1, htok, e.2, fun Q => Program.eq_of_yield_eq, ?_⟩
  rw [hcode']
  exact Program.implements_code hP

/-- A text with a loop whose operations do not associate. -/
def countdown : String :=
  "program p; var n, k: integer; begin read(n); while 1 <= n do n := n - 2 * k - 3; write(n) end."

def countdownCode : List Instruction :=
  [.start, .allocate 2, .read, .store 0, .anchor ⟨1⟩, .constant 1, .load 0,
    .operate .lessOrEqual, .jumpIfFalse ⟨2⟩, .load 0, .constant 2, .load 1, .operate .multiply,
    .operate .subtract, .constant 3, .operate .subtract, .store 0, .jump ⟨1⟩, .anchor ⟨2⟩,
    .load 0, .write, .halt]

theorem compile_preserves_countdown :
    compile countdown = .ok countdownCode ∧
      ∃ (P : Program) (e : Token), tokenize countdown = .ok (P.yield ++ [e]) ∧ e.kind = .eof ∧
        (∀ Q : Program, Q.yield = P.yield → Q = P) ∧ Implements.{0} countdownCode P := by
  have h : compile countdown = .ok countdownCode := by decide +kernel
  exact ⟨h, compile_preserves countdown countdownCode h⟩

end Grammar

end OnePass
