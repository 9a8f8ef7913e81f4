import Mathlib.Logic.Relation
import OnePass.Proofs.Evaluation

/-!
The stack machine, and when it halts.

A jump goes to the anchor of its label in the code, wherever that is. The machine is stuck when
there is no such anchor, when there are too few values on the stack, when a cell is not reserved,
when an operation is undefined and when it reads at the end of the input.
-/

namespace OnePass.Machine

universe u

structure State (D : Domain.{u}) where
  pc : Nat
  stack : List D.Value
  /-- The number of cells that may be used. -/
  reserved : Nat
  /-- The cells, the input and the output. -/
  env : Env D Nat

variable {D : Domain.{u}}

namespace State

def next (s : State D) : State D := { s with pc := s.pc + 1 }

def push (s : State D) (v : D.Value) : State D := { s with stack := v :: s.stack }

def pop (s : State D) : Option (D.Value × State D) :=
  match s.stack with
  | [] => none
  | v :: stack => some (v, { s with stack := stack })

def goTo (code : List Instruction) (l : Label) (s : State D) : Option (State D) :=
  (code.idxOf? (.anchor l)).map fun pc => { s with pc := pc }

end State

def exec (code : List Instruction) (s : State D) : Instruction → Option (State D)
  | .start | .anchor _ => some s.next
  | .allocate n => some { s.next with reserved := s.reserved + n }
  | .store a => do
    let (v, s) ← s.pop
    if a < s.reserved then some { s.next with env := s.env.assign a v } else none
  | .load a => if a < s.reserved then some (s.next.push (s.env.store a)) else none
  | .constant n => some (s.next.push (D.constant n))
  | .operate op => do
    let (r, s) ← s.pop
    let (l, s) ← s.pop
    return s.next.push (← D.operate op l r)
  | .jumpIfFalse l => do
    let (v, s) ← s.pop
    if D.truthy v then some s.next else s.goTo code l
  | .jump l => s.goTo code l
  | .read => do
    let (v, env) ← s.env.read
    return { s.next with env := env }.push v
  | .write => do
    let (v, s) ← s.pop
    return { s.next with env := s.env.write v }
  | .halt => none

def step (code : List Instruction) (s : State D) : Option (State D) :=
  code[s.pc]?.bind (exec code s)

/-- The machine gets from `s` to `s'`. -/
def Reaches (code : List Instruction) : State D → State D → Prop :=
  Relation.ReflTransGen fun s s' => step code s = some s'

/-- The machine, begun in `s`, comes to a `halt` with these cells, input and output. -/
def Halts (code : List Instruction) (s : State D) (env : Env D Nat) : Prop :=
  ∃ s', Reaches code s s' ∧ code[s'.pc]? = some .halt ∧ s'.env = env

def State.initial (env : Env D Nat) : State D := ⟨0, [], 0, env⟩

/-! ### Counting steps -/

/-- The machine comes to a `halt` in so many steps. -/
def HaltsIn (code : List Instruction) (env : Env D Nat) : Nat → State D → Prop
  | 0, s => code[s.pc]? = some .halt ∧ s.env = env
  | n + 1, s => ∃ s', step code s = some s' ∧ HaltsIn code env n s'

variable {code : List Instruction} {s : State D} {env : Env D Nat} {n : Nat}

lemma halts_iff : Halts code s env ↔ ∃ n, HaltsIn code env n s := by
  constructor
  · rintro ⟨s', hr, hh⟩
    induction hr using Relation.ReflTransGen.head_induction_on with
    | refl => exact ⟨0, hh⟩
    | head hs _ ih =>
      obtain ⟨n, hn⟩ := ih
      exact ⟨n + 1, _, hs, hn⟩
  · rintro ⟨n, hn⟩
    induction n generalizing s with
    | zero => exact ⟨s, .refl, hn⟩
    | succ n ih =>
      obtain ⟨s', hs, hn⟩ := hn
      obtain ⟨s'', hr, hh⟩ := ih hn
      exact ⟨s'', .head hs hr, hh⟩

lemma haltsIn_halt (h : code[s.pc]? = some .halt) :
    HaltsIn code env n s ↔ n = 0 ∧ s.env = env := by
  cases n with
  | zero => simp [HaltsIn, h]
  | succ n => simp [HaltsIn, step, h, exec]

lemma haltsIn_instruction {i : Instruction} (h : code[s.pc]? = some i) (hi : i ≠ .halt) :
    HaltsIn code env n s ↔ ∃ m s', n = m + 1 ∧ exec code s i = some s' ∧ HaltsIn code env m s' := by
  cases n with
  | zero => simp [HaltsIn, h, hi]
  | succ n => simp [HaltsIn, step, h]

section Instructions

variable {pc k : Nat} {stack : List D.Value} {cells : Env D Nat} {v w : D.Value}

lemma haltsIn_start (h : code[pc]? = some .start) :
    HaltsIn code env n ⟨pc, stack, k, cells⟩ ↔
      ∃ m, n = m + 1 ∧ HaltsIn code env m ⟨pc + 1, stack, k, cells⟩ := by
  rw [haltsIn_instruction h (by simp)]
  simp [exec, State.next]

lemma haltsIn_allocate {c : Nat} (h : code[pc]? = some (.allocate c)) :
    HaltsIn code env n ⟨pc, stack, k, cells⟩ ↔
      ∃ m, n = m + 1 ∧ HaltsIn code env m ⟨pc + 1, stack, k + c, cells⟩ := by
  rw [haltsIn_instruction h (by simp)]
  simp [exec, State.next]

lemma haltsIn_load {a : Nat} (h : code[pc]? = some (.load a)) (ha : a < k) :
    HaltsIn code env n ⟨pc, stack, k, cells⟩ ↔
      ∃ m, n = m + 1 ∧ HaltsIn code env m ⟨pc + 1, cells.store a :: stack, k, cells⟩ := by
  rw [haltsIn_instruction h (by simp)]
  simp [exec, ha, State.push, State.next]

lemma haltsIn_constant {c : Int} (h : code[pc]? = some (.constant c)) :
    HaltsIn code env n ⟨pc, stack, k, cells⟩ ↔
      ∃ m, n = m + 1 ∧ HaltsIn code env m ⟨pc + 1, D.constant c :: stack, k, cells⟩ := by
  rw [haltsIn_instruction h (by simp)]
  simp [exec, State.push, State.next]

lemma haltsIn_operate {op : Operator} (h : code[pc]? = some (.operate op)) :
    HaltsIn code env n ⟨pc, w :: v :: stack, k, cells⟩ ↔ ∃ m x, D.operate op v w = some x ∧
      n = m + 1 ∧ HaltsIn code env m ⟨pc + 1, x :: stack, k, cells⟩ := by
  rw [haltsIn_instruction h (by simp)]
  cases hx : D.operate op v w <;> simp [exec, State.pop, State.push, State.next, hx]

lemma haltsIn_store {a : Nat} (h : code[pc]? = some (.store a)) (ha : a < k) :
    HaltsIn code env n ⟨pc, v :: stack, k, cells⟩ ↔
      ∃ m, n = m + 1 ∧ HaltsIn code env m ⟨pc + 1, stack, k, cells.assign a v⟩ := by
  rw [haltsIn_instruction h (by simp)]
  simp [exec, State.pop, ha, State.next]

lemma haltsIn_read (h : code[pc]? = some .read) :
    HaltsIn code env n ⟨pc, stack, k, cells⟩ ↔ ∃ m v cells', cells.read = some (v, cells') ∧
      n = m + 1 ∧ HaltsIn code env m ⟨pc + 1, v :: stack, k, cells'⟩ := by
  rw [haltsIn_instruction h (by simp)]
  rcases hr : cells.read with _ | ⟨v, cells'⟩
  · simp [exec, hr]
  · simp [exec, State.push, State.next, hr, and_assoc]

lemma haltsIn_write (h : code[pc]? = some .write) :
    HaltsIn code env n ⟨pc, v :: stack, k, cells⟩ ↔
      ∃ m, n = m + 1 ∧ HaltsIn code env m ⟨pc + 1, stack, k, cells.write v⟩ := by
  rw [haltsIn_instruction h (by simp)]
  simp [exec, State.pop, State.next]

lemma haltsIn_anchor {l : Label} (h : code[pc]? = some (.anchor l)) :
    HaltsIn code env n ⟨pc, stack, k, cells⟩ ↔
      ∃ m, n = m + 1 ∧ HaltsIn code env m ⟨pc + 1, stack, k, cells⟩ := by
  rw [haltsIn_instruction h (by simp)]
  simp [exec, State.next]

end Instructions

/-! ### Where code is -/

/-- The code has this part at `pc`. -/
def At (code : List Instruction) (pc : Nat) (part : List Instruction) : Prop :=
  part <+: code.drop pc

variable {pc : Nat} {i : Instruction} {part more : List Instruction}

lemma At.head (h : At code pc (i :: part)) : code[pc]? = some i := by
  obtain ⟨after, ha⟩ := h
  have hg : (code.drop pc)[0]? = some i := by rw [← ha]; rfl
  simpa using hg

lemma At.left (h : At code pc (part ++ more)) : At code pc part :=
  (List.prefix_append part more).trans h

lemma At.right (h : At code pc (part ++ more)) : At code (pc + part.length) more := by
  obtain ⟨after, ha⟩ := h
  refine ⟨after, ?_⟩
  rw [← List.drop_drop, ← ha, List.append_assoc, List.drop_left]

lemma At.tail (h : At code pc (i :: part)) : At code (pc + 1) part := by
  rw [← List.singleton_append] at h
  exact h.right

/-! ### Anchors -/

def anchors : List Instruction → List Label
  | [] => []
  | .anchor l :: code => l :: anchors code
  | _ :: code => anchors code

@[simp] lemma anchors_append (code more : List Instruction) :
    anchors (code ++ more) = anchors code ++ anchors more := by
  induction code with
  | nil => rfl
  | cons i code ih => cases i <;> simp [anchors, ih]

lemma mem_anchors {l : Label} (h : .anchor l ∈ code) : l ∈ anchors code := by
  induction code with
  | nil => cases h
  | cons i code ih =>
    rcases List.mem_cons.1 h with rfl | hm
    · simp [anchors]
    · cases i <;> simp [anchors, ih hm]

lemma goTo_of_anchor {l : Label} (hd : (anchors code).Nodup) (h : code[pc]? = some (.anchor l)) :
    s.goTo code l = some { s with pc := pc } := by
  suffices hi : code.idxOf? (.anchor l) = some pc by simp [State.goTo, hi]
  induction code generalizing pc with
  | nil => simp at h
  | cons i code ih =>
    rw [List.idxOf?_cons]
    cases pc with
    | zero =>
      rw [List.getElem?_cons_zero] at h
      simp [Option.some.inj h]
    | succ pc =>
      rw [List.getElem?_cons_succ] at h
      have hm : l ∈ anchors code := mem_anchors (List.mem_of_getElem? h)
      have hne : i ≠ .anchor l := by
        rintro rfl
        exact (List.nodup_cons.1 hd).1 hm
      have hd' : (anchors code).Nodup := by cases i <;> simp_all [anchors]
      simp [hne, ih hd' h]

lemma haltsIn_jump {pc' k : Nat} {stack : List D.Value} {cells : Env D Nat} {l : Label}
    (hd : (anchors code).Nodup) (h : code[pc]? = some (.jump l))
    (hl : code[pc']? = some (.anchor l)) :
    HaltsIn code env n ⟨pc, stack, k, cells⟩ ↔
      ∃ m, n = m + 1 ∧ HaltsIn code env m ⟨pc', stack, k, cells⟩ := by
  rw [haltsIn_instruction h (by simp)]
  simp [exec, goTo_of_anchor hd hl]

lemma haltsIn_jumpIfFalse {pc' k : Nat} {stack : List D.Value} {cells : Env D Nat} {l : Label}
    {v : D.Value} (hd : (anchors code).Nodup) (h : code[pc]? = some (.jumpIfFalse l))
    (hl : code[pc']? = some (.anchor l)) :
    HaltsIn code env n ⟨pc, v :: stack, k, cells⟩ ↔ ∃ m, n = m + 1 ∧
      HaltsIn code env m ⟨if D.truthy v then pc + 1 else pc', stack, k, cells⟩ := by
  rw [haltsIn_instruction h (by simp)]
  cases hv : D.truthy v <;> simp [exec, State.pop, State.next, hv, goTo_of_anchor hd hl]

end OnePass.Machine
