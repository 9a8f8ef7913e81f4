import Mathlib.Data.List.Nodup
import OnePass.Proofs.Preservation

/-!
Code in which the machine never gets stuck.

What is known about a state before it is reached is its frame: how many values are on the stack and
how many cells are reserved. Read from the front, code gives a frame to each of its instructions.
Code is sound if no instruction is out of place in its frame and a jump finds one anchor, with the
frame that the jump leaves. Then every state that is reached has the frame of its instruction, in
runs that end and in runs that do not.
-/

namespace OnePass

universe u

namespace Instruction

/-- How many values the instruction takes off the stack. -/
def operands : Instruction → Nat
  | .operate _ => 2
  | .store _ | .jumpIfFalse _ | .write => 1
  | _ => 0

/-- How many values the instruction puts on the stack. -/
def results : Instruction → Nat
  | .load _ | .constant _ | .operate _ | .read => 1
  | _ => 0

/-- How many cells the instruction reserves. -/
def reserves : Instruction → Nat
  | .allocate n => n
  | _ => 0

/-- The cell that the instruction uses. -/
def cell? : Instruction → Option Nat
  | .load a | .store a => some a
  | _ => none

end Instruction

namespace Machine

/-! ### Frames -/

structure Frame where
  height : Nat
  cells : Nat
  deriving DecidableEq, Repr

namespace Frame

/-- The instruction is in place: it has its operands, and no other value is on the stack unless it
puts one there too; and its cell is reserved. -/
def Allows (f : Frame) (i : Instruction) : Prop :=
  i.operands ≤ f.height ∧ (i.results = 0 → f.height = i.operands) ∧ ∀ a ∈ i.cell?, a < f.cells

instance (f : Frame) (i : Instruction) : Decidable (f.Allows i) :=
  inferInstanceAs (Decidable (_ ∧ (_ → _) ∧ ∀ a ∈ i.cell?, a < f.cells))

/-- The frame after an instruction that is in place. -/
def after (f : Frame) (i : Instruction) : Option Frame :=
  if f.Allows i then some ⟨f.height - i.operands + i.results, f.cells + i.reserves⟩ else none

lemma after_eq_some {f f' : Frame} {i : Instruction} : f.after i = some f' ↔
    f.Allows i ∧ ⟨f.height - i.operands + i.results, f.cells + i.reserves⟩ = f' := by
  rw [after, Option.ite_none_right_eq_some, Option.some.injEq]

section Instructions

variable (h k n : Nat) (l : Label)

@[simp] lemma after_start : (Frame.mk 0 k).after .start = some ⟨0, k⟩ := rfl

@[simp] lemma after_allocate : (Frame.mk 0 k).after (.allocate n) = some ⟨0, k + n⟩ := rfl

@[simp] lemma after_anchor : (Frame.mk 0 k).after (.anchor l) = some ⟨0, k⟩ := rfl

@[simp] lemma after_jump : (Frame.mk 0 k).after (.jump l) = some ⟨0, k⟩ := rfl

@[simp] lemma after_halt : (Frame.mk 0 k).after .halt = some ⟨0, k⟩ := rfl

@[simp] lemma after_write : (Frame.mk 1 k).after .write = some ⟨0, k⟩ := rfl

@[simp] lemma after_jumpIfFalse : (Frame.mk 1 k).after (.jumpIfFalse l) = some ⟨0, k⟩ := rfl

@[simp] lemma after_read : (Frame.mk h k).after .read = some ⟨h + 1, k⟩ := rfl

@[simp] lemma after_constant (v : Int) : (Frame.mk h k).after (.constant v) = some ⟨h + 1, k⟩ :=
  rfl

@[simp] lemma after_operate (op : Operator) :
    (Frame.mk (h + 1 + 1) k).after (.operate op) = some ⟨h + 1, k⟩ := rfl

variable {k n}

lemma after_load (hn : n < k) : (Frame.mk h k).after (.load n) = some ⟨h + 1, k⟩ := by
  refine if_pos ⟨Nat.zero_le h, fun hr => absurd hr Nat.one_ne_zero, fun a ha => ?_⟩
  cases ha
  exact hn

lemma after_store (hn : n < k) : (Frame.mk 1 k).after (.store n) = some ⟨0, k⟩ := by
  refine if_pos ⟨Nat.le_refl 1, fun _ => rfl, fun a ha => ?_⟩
  cases ha
  exact hn

end Instructions

end Frame

def frames (f : Frame) (code : List Instruction) : Option Frame := code.foldlM Frame.after f

@[simp] lemma frames_nil (f : Frame) : frames f [] = some f := rfl

@[simp] lemma frames_cons (f : Frame) (i : Instruction) (code : List Instruction) :
    frames f (i :: code) = (f.after i).bind fun f => frames f code := rfl

lemma frames_append (f : Frame) (code more : List Instruction) :
    frames f (code ++ more) = (frames f code).bind fun f => frames f more := by
  unfold frames
  rw [List.foldlM_append]
  rfl

/-- The frame of the instruction at `pc`. -/
def frameAt (code : List Instruction) (pc : Nat) : Option Frame := frames ⟨0, 0⟩ (code.take pc)

variable {code : List Instruction} {f f' : Frame} {i : Instruction} {pc k : Nat}

lemma frameAt_succ (h : code[pc]? = some i) :
    frameAt code (pc + 1) = (frameAt code pc).bind fun f => f.after i := by
  unfold frameAt
  rw [List.take_add_one, h, frames_append]
  simp

lemma exists_frameAt (h : frames ⟨0, 0⟩ code = some f) (pc : Nat) :
    ∃ f', frameAt code pc = some f' ∧ frames f' (code.drop pc) = some f := by
  rw [← List.take_append_drop pc code, frames_append] at h
  exact Option.bind_eq_some_iff.1 h

lemma cells_le_frames (h : frames f code = some f') : f.cells ≤ f'.cells := by
  induction code generalizing f with
  | nil =>
    cases h
    exact Nat.le_refl _
  | cons i code ih =>
    obtain ⟨g, hg, h⟩ := Option.bind_eq_some_iff.1 h
    have hi : f.cells ≤ g.cells := by
      rw [← (Frame.after_eq_some.1 hg).2]
      exact Nat.le_add_right _ _
    have hc := ih h
    omega

/-! ### Sound code -/

/-- Code that reserves `k` cells at once, has a frame for each instruction, ends in a `halt`, and
in which a jump finds one anchor, with the frame that the jump leaves. -/
structure Sound (code : List Instruction) (k : Nat) : Prop where
  framed : frames ⟨0, 0⟩ code = some ⟨0, k⟩
  allocates : ∀ n, .allocate n ∈ code → n = k
  halts : code.getLast? = some .halt
  lands : ∀ pc l, code[pc]? = some (.jump l) ∨ code[pc]? = some (.jumpIfFalse l) →
    code.count (.anchor l) = 1 ∧
      ∀ pc', code[pc']? = some (.anchor l) → frameAt code pc' = frameAt code (pc + 1)

variable {D : Domain.{u}} {s s' : State D}

def State.frame (s : State D) : Frame := ⟨s.stack.length, s.reserved⟩

/-- A state that has the frame of its instruction. -/
structure Fits (code : List Instruction) (s : State D) : Prop where
  inside : s.pc < code.length
  framed : frameAt code s.pc = some s.frame

lemma goTo_eq_some {l : Label} (h : s.goTo code l = some s') :
    code[s'.pc]? = some (.anchor l) ∧ s'.frame = s.frame := by
  obtain ⟨pc, hp, rfl⟩ := Option.map_eq_some_iff.1 h
  refine ⟨?_, rfl⟩
  obtain ⟨hlt, he, -⟩ := List.findIdx?_eq_some_iff_getElem.1 hp
  rw [List.getElem?_eq_getElem hlt]
  simpa using he

/-- **What a step does to the frame**: it goes on, or lands on the anchor of a jump. -/
lemma frame_exec (ha : s.frame.after i = some f') (h : exec code s i = some s') :
    s'.frame = f' ∧ (s'.pc = s.pc + 1 ∨
      ∃ l, (i = .jump l ∨ i = .jumpIfFalse l) ∧ code[s'.pc]? = some (.anchor l)) := by
  obtain ⟨-, rfl⟩ := Frame.after_eq_some.1 ha
  obtain ⟨pc, stack, reserved, env⟩ := s
  cases i with
  | start | anchor | allocate | constant =>
    cases h
    exact ⟨rfl, .inl rfl⟩
  | load a =>
    simp only [exec] at h
    split at h <;> cases h
    exact ⟨rfl, .inl rfl⟩
  | store a =>
    cases stack with
    | nil => cases h
    | cons v stack =>
      simp only [exec, State.pop, Option.bind_eq_bind, Option.bind_some] at h
      split at h <;> cases h
      exact ⟨rfl, .inl rfl⟩
  | operate op =>
    rcases stack with _ | ⟨r, _ | ⟨l, stack⟩⟩
    · cases h
    · cases h
    · obtain ⟨v, -, hv⟩ := Option.bind_eq_some_iff.1 h
      cases hv
      exact ⟨rfl, .inl rfl⟩
  | jumpIfFalse l =>
    cases stack with
    | nil => cases h
    | cons v stack =>
      -- A true condition falls through, a false one goes to the anchor.
      simp only [exec, State.pop, Option.bind_eq_bind, Option.bind_some] at h
      split at h
      · cases h
        exact ⟨rfl, .inl rfl⟩
      · obtain ⟨hl, hf⟩ := goTo_eq_some h
        exact ⟨hf, .inr ⟨l, .inr rfl, hl⟩⟩
  | jump l =>
    obtain ⟨hl, hf⟩ := goTo_eq_some h
    exact ⟨hf, .inr ⟨l, .inl rfl, hl⟩⟩
  | read =>
    obtain ⟨v, -, hv⟩ := Option.bind_eq_some_iff.1 h
    cases hv
    exact ⟨rfl, .inl rfl⟩
  | write =>
    cases stack with
    | nil => cases h
    | cons v stack =>
      cases h
      exact ⟨rfl, .inl rfl⟩
  | halt => cases h

/-- Why the machine may stop before a `halt`: an operation is undefined, or the input is at its
end. -/
inductive Starved (s : State D) : Instruction → Prop
  | operation {op : Operator} {l r : D.Value} {rest : List D.Value} (hs : s.stack = r :: l :: rest)
      (hv : D.operate op l r = none) : Starved s (.operate op)
  | input (hv : D.next s.env.input = none) : Starved s .read

/-- **Progress**: an instruction that is in place is executed, unless it is a `halt` or starved. -/
lemma exec_eq_none (ha : s.frame.Allows i)
    (hl : ∀ l, i = .jump l ∨ i = .jumpIfFalse l → .anchor l ∈ code)
    (h : exec code s i = none) : i = .halt ∨ Starved s i := by
  have hgo : ∀ {t : State D} {l : Label}, .anchor l ∈ code → t.goTo code l ≠ none := by
    intro t l hm hn
    rw [State.goTo, Option.map_eq_none_iff, List.idxOf?_eq_none_iff] at hn
    exact hn hm
  -- The frame gives the operands and the cells, so what is left can only be missing data.
  obtain ⟨hops, -, hcell⟩ := ha
  obtain ⟨pc, stack, reserved, env⟩ := s
  cases i with
  | halt => exact .inl rfl
  | start | anchor | allocate | constant => cases h
  | load a =>
    have hr : a < reserved := hcell a rfl
    simp [exec, hr] at h
  | store a =>
    have hr : a < reserved := hcell a rfl
    cases stack with
    | nil => cases hops
    | cons v stack => simp [exec, State.pop, hr] at h
  | operate op =>
    rcases stack with _ | ⟨r, _ | ⟨l, stack⟩⟩
    · cases hops
    · have hlen : 2 ≤ 1 := hops
      omega
    · cases hv : D.operate op l r with
      | none => exact .inr (.operation rfl hv)
      | some v => simp [exec, State.pop, hv] at h
  | jumpIfFalse l =>
    cases stack with
    | nil => cases hops
    | cons v stack =>
      simp only [exec, State.pop, Option.bind_eq_bind, Option.bind_some] at h
      split at h
      · cases h
      · exact absurd h (hgo (hl l (.inr rfl)))
  | jump l => exact absurd h (hgo (hl l (.inl rfl)))
  | read =>
    cases hv : D.next env.input with
    | none => exact .inr (.input hv)
    | some r => simp [exec, Env.read, hv] at h
  | write =>
    cases stack with
    | nil => cases hops
    | cons v stack => cases h

/-! ### Runs of sound code -/

lemma Sound.exists_after (hc : Sound code k) (hs : Fits code s) (hi : code[s.pc]? = some i) :
    ∃ f', s.frame.after i = some f' ∧ frameAt code (s.pc + 1) = some f' := by
  obtain ⟨f', hf, -⟩ := exists_frameAt hc.framed (s.pc + 1)
  refine ⟨f', ?_, hf⟩
  rw [frameAt_succ hi, hs.framed] at hf
  exact hf

lemma Sound.succ_lt (hc : Sound code k) (hi : code[pc]? = some i) (hn : i ≠ .halt) :
    pc + 1 < code.length := by
  have hlt : pc < code.length := (List.getElem?_eq_some_iff.1 hi).1
  by_contra hle
  have hp : pc = code.length - 1 := by omega
  have hl := hc.halts
  rw [List.getLast?_eq_getElem?, ← hp, hi] at hl
  exact hn (Option.some.inj hl)

lemma Fits.step (hc : Sound code k) (hs : Fits code s) (h : step code s = some s') :
    Fits code s' := by
  obtain ⟨i, hi, hx⟩ := Option.bind_eq_some_iff.1 h
  obtain ⟨f', ha, hf⟩ := hc.exists_after hs hi
  obtain ⟨rfl, hp⟩ := frame_exec ha hx
  rcases hp with hp | ⟨l, hj, hl⟩
  · have hn : i ≠ .halt := by
      rintro rfl
      cases hx
    refine ⟨?_, ?_⟩
    · rw [hp]
      exact hc.succ_lt hi hn
    · rw [hp, hf]
  · have hj' : code[s.pc]? = some (.jump l) ∨ code[s.pc]? = some (.jumpIfFalse l) := by
      rw [hi]
      exact hj.imp (congrArg some) (congrArg some)
    refine ⟨(List.getElem?_eq_some_iff.1 hl).1, ?_⟩
    rw [(hc.lands s.pc l hj').2 s'.pc hl, hf]

lemma fits_initial (hc : Sound code k) (env : Env D Nat) : Fits code (State.initial env) := by
  refine ⟨?_, rfl⟩
  have hl := hc.halts
  rw [List.getLast?_eq_some_iff] at hl
  obtain ⟨front, rfl⟩ := hl
  simp [State.initial]

lemma Fits.reaches (hc : Sound code k) (hs : Fits code s) (h : Reaches code s s') :
    Fits code s' := by
  induction h with
  | refl => exact hs
  | tail _ h ih => exact ih.step hc h

/-- The instruction `i` was executed on the way from the initial state to `s`. -/
def Executed (code : List Instruction) (env : Env D Nat) (i : Instruction) (s : State D) : Prop :=
  ∃ s₀ s₁, Reaches code (.initial env) s₀ ∧ code[s₀.pc]? = some i ∧ step code s₀ = some s₁ ∧
    Reaches code s₁ s

variable {env : Env D Nat}

lemma exists_executed (hc : Sound code k) (h : Reaches code (.initial env) s) :
    s.reserved = 0 ∨ ∃ n, Executed code env (.allocate n) s := by
  induction h with
  | refl => exact .inl rfl
  | @tail s₀ s₁ hr hx ih =>
    have hs := (fits_initial hc env).reaches hc hr
    obtain ⟨i, hi, he⟩ := Option.bind_eq_some_iff.1 hx
    obtain ⟨f', ha, -⟩ := hc.exists_after hs hi
    have hf : s₁.frame = f' := (frame_exec ha he).1
    have hcells : s₁.reserved = s₀.reserved + i.reserves := by
      rw [← (Frame.after_eq_some.1 ha).2] at hf
      exact congrArg Frame.cells hf
    by_cases hn : ∃ n, i = .allocate n
    · obtain ⟨n, rfl⟩ := hn
      exact .inr ⟨n, s₀, s₁, hr, hi, hx, .refl⟩
    · have hz : i.reserves = 0 := by
        cases i with
        | allocate n => exact absurd ⟨n, rfl⟩ hn
        | _ => rfl
      rcases ih with ih | ⟨n, t₀, t₁, h₀, hj, h₁, h₂⟩
      · left
        omega
      · exact .inr ⟨n, t₀, t₁, h₀, hj, h₁, h₂.tail hx⟩

/-- What holds of a state `s` that has come to the instruction `i`. -/
structure Safe (code : List Instruction) (env : Env D Nat) (s : State D) (i : Instruction) :
    Prop where
  no_underflow : i.operands ≤ s.stack.length
  reserved : ∀ a, i = .load a ∨ i = .store a → ∃ n, Executed code env (.allocate n) s ∧ a < n
  one_anchor : ∀ l, i = .jump l ∨ i = .jumpIfFalse l → code.count (.anchor l) = 1
  empty_at : (∃ l, i = .anchor l) ∨ i = .halt → s.stack = []
  empty_after : (∃ a, i = .store a) ∨ i = .write ∨ (∃ l, i = .jumpIfFalse l) ∨ (∃ l, i = .jump l) →
    ∀ s', step code s = some s' → s'.stack = []
  stops : step code s = none → i = .halt ∨ Starved s i

/-- **Sound code is safe**, wherever the machine gets to in it. -/
theorem Sound.safe (hc : Sound code k) (h : Reaches code (.initial env) s) :
    ∃ i, code[s.pc]? = some i ∧ Safe code env s i := by
  have hs := (fits_initial hc env).reaches hc h
  obtain ⟨i, hi⟩ : ∃ i, code[s.pc]? = some i := ⟨_, List.getElem?_eq_getElem hs.inside⟩
  obtain ⟨f', ha, hf⟩ := hc.exists_after hs hi
  obtain ⟨⟨hops, hall, hcell⟩, hf'⟩ := Frame.after_eq_some.1 ha
  have hone : ∀ l, i = .jump l ∨ i = .jumpIfFalse l → code.count (.anchor l) = 1 := by
    intro l hl
    refine (hc.lands s.pc l ?_).1
    rw [hi]
    exact hl.imp (congrArg some) (congrArg some)
  refine ⟨i, hi, hops, ?_, hone, ?_, ?_, ?_⟩
  · -- All cells are reserved at once, by an instruction that was executed.
    intro a hl
    have hlt : a < s.reserved := hcell a (by rcases hl with rfl | rfl <;> rfl)
    have hle : s.reserved ≤ k := by
      obtain ⟨g, hg, hrest⟩ := exists_frameAt hc.framed s.pc
      rw [hs.framed] at hg
      cases hg
      exact cells_le_frames hrest
    rcases exists_executed hc h with hz | ⟨n, hn⟩
    · omega
    · have hk : n = k := by
        obtain ⟨s₀, -, -, h₀, -⟩ := hn
        exact hc.allocates n (List.mem_of_getElem? h₀)
      exact ⟨n, hn, by omega⟩
  -- Anchors and the halt are reached with an empty stack.
  · intro hi'
    have hz : s.stack.length = 0 := by rcases hi' with ⟨l, rfl⟩ | rfl <;> exact hall rfl
    exact List.length_eq_zero_iff.1 hz
  -- What gives no result takes all there is.
  · intro hi' s' hx
    obtain ⟨j, hj, he⟩ := Option.bind_eq_some_iff.1 hx
    obtain rfl : i = j := Option.some.inj (hi.symm.trans hj)
    have hres : i.results = 0 := by rcases hi' with ⟨a, rfl⟩ | rfl | ⟨l, rfl⟩ | ⟨l, rfl⟩ <;> rfl
    have hheight : s'.stack.length = s.stack.length - i.operands + i.results := by
      have hframe : s'.frame = f' := (frame_exec ha he).1
      rw [← hf'] at hframe
      exact congrArg Frame.height hframe
    have hlen : s.stack.length = i.operands := hall hres
    exact List.length_eq_zero_iff.1 (by omega)
  -- Where no step is possible, nothing but the data can be the reason.
  · intro hn
    have hx : exec code s i = none := by simpa [step, hi] using hn
    refine exec_eq_none ⟨hops, hall, hcell⟩ (fun l hl => ?_) hx
    have hpos : 0 < code.count (.anchor l) := by
      rw [hone l hl]
      exact Nat.one_pos
    exact List.count_pos_iff.1 hpos

/-! ### The code of programs -/

lemma count_anchor (code : List Instruction) (l : Label) :
    code.count (.anchor l) = (anchors code).count l := by
  induction code with
  | nil => rfl
  | cons i code ih =>
    cases i with
    | anchor m =>
      rw [anchors, List.count_cons, List.count_cons, ih]
      simp
    | _ => simpa [anchors] using ih

end Machine

open Machine

variable {k n : Nat}

lemma Expr.frames_code {e : Expr Nat} (he : e.All (· < k)) (h : Nat) :
    frames ⟨h, k⟩ e.code = some ⟨h + 1, k⟩ := by
  induction e generalizing h with
  | name a => simp [code, Frame.after_load h he]
  | literal v => simp [code]
  | operate op l r ihl ihr =>
    rw [code, frames_append, frames_append, ihl he.1, Option.bind_some, ihr he.2,
      Option.bind_some]
    simp

lemma Command.frames_code {c : Command Nat} (hc : c.All (· < k)) (n : Nat) :
    frames ⟨0, k⟩ (c.code n) = some ⟨0, k⟩ := by
  induction c generalizing n with
  | empty => rfl
  | assign a e =>
    rw [code, frames_append, Expr.frames_code hc.2, Option.bind_some]
    simp [Frame.after_store hc.1]
  | read a => simp [code, Frame.after_store hc]
  | write e =>
    rw [code, frames_append, Expr.frames_code hc, Option.bind_some]
    simp
  | seq c c' ih ih' => rw [code, frames_append, ih hc.1, Option.bind_some, ih' hc.2]
  | loop e body ih =>
    have he := Expr.frames_code hc.1 0
    have hb := ih hc.2 (n + 2)
    simp [code, frames_append, he, hb]

lemma Command.anchor_mem {c : Command Nat} {l : Label}
    (h : .jump l ∈ c.code n ∨ .jumpIfFalse l ∈ c.code n) : .anchor l ∈ c.code n := by
  have he : ∀ e : Expr Nat, .jump l ∉ e.code ∧ .jumpIfFalse l ∉ e.code := by
    intro e
    constructor
    · intro h
      simpa using Expr.mem_code h
    · intro h
      simpa using Expr.mem_code h
  induction c generalizing n with
  | empty => simp [code] at h
  | assign a e => simp [code, he] at h
  | read a => simp [code] at h
  | write e => simp [code, he] at h
  | seq c c' ih ih' =>
    simp only [code, List.mem_append] at h ⊢
    rcases h with (h | h) | (h | h)
    · exact .inl (ih (.inl h))
    · exact .inr (ih' (.inl h))
    · exact .inl (ih (.inr h))
    · exact .inr (ih' (.inr h))
  | loop e body ih =>
    have hb := @ih (n + 2)
    simp only [code, List.cons_append, List.append_assoc, List.mem_cons, List.mem_append, he,
      reduceCtorEq, Instruction.jump.injEq, Instruction.jumpIfFalse.injEq,
      Instruction.anchor.injEq, List.not_mem_nil, false_or, or_false] at h ⊢
    -- The jumps of the body have their anchors there, the loop's own two are around it.
    rcases h with (h | rfl) | (rfl | h)
    · exact .inr (.inr (.inl (hb (.inl h))))
    · exact .inl rfl
    · exact .inr (.inr (.inr rfl))
    · exact .inr (.inr (.inl (hb (.inr h))))

namespace Grammar

lemma Program.frames_entry (P : Program) :
    frames ⟨0, 0⟩ (.start :: P.allocation) = some ⟨0, P.variableNames.length⟩ := by
  unfold Program.allocation Program.variableNames Program.names
  cases P.declarations <;> simp

lemma Program.mem_entry {P : Program} {i : Instruction}
    (h : i ∈ Instruction.start :: P.allocation) :
    i = .start ∨ i = .allocate P.variableNames.length := by
  unfold Program.allocation Program.variableNames Program.names at *
  cases hd : P.declarations <;> simp_all

lemma Program.frames_body {P : Program} (hP : P.WellNamed) :
    frames ⟨0, P.variableNames.length⟩ (P.resolved.code 0 ++ [Instruction.halt]) =
      some ⟨0, P.variableNames.length⟩ := by
  rw [frames_append, Command.frames_code (Program.all_resolved hP), Option.bind_some]
  simp

lemma Program.frames_code {P : Program} (hP : P.WellNamed) :
    frames ⟨0, 0⟩ P.code = some ⟨0, P.variableNames.length⟩ := by
  rw [P.code_eq, frames_append, P.frames_entry, Option.bind_some, Program.frames_body hP]

lemma Program.frameAt_code {P : Program} (hP : P.WellNamed) {pc : Nat}
    (hpc : (Instruction.start :: P.allocation).length ≤ pc) :
    ∃ h, frameAt P.code pc = some ⟨h, P.variableNames.length⟩ := by
  have hb := Program.frames_body hP
  rw [← List.take_append_drop (pc - (Instruction.start :: P.allocation).length)
    (P.resolved.code 0 ++ [Instruction.halt]), frames_append] at hb
  obtain ⟨f, hf, hrest⟩ := Option.bind_eq_some_iff.1 hb
  have hle : P.variableNames.length ≤ f.cells := cells_le_frames hf
  have hge : f.cells ≤ P.variableNames.length := cells_le_frames hrest
  refine ⟨f.height, ?_⟩
  unfold frameAt
  rw [P.code_eq, List.take_append, List.take_of_length_le hpc, frames_append, P.frames_entry,
    Option.bind_some, hf, ← Nat.le_antisymm hge hle]

lemma Program.frameAt_of_results {P : Program} (hP : P.WellNamed) {pc : Nat} {i : Instruction}
    (hi : P.code[pc]? = some i) (hr : i.results = 0) (hs : i ≠ .start)
    (ha : i ≠ .allocate P.variableNames.length) :
    frameAt P.code pc = some ⟨i.operands, P.variableNames.length⟩ ∧
      frameAt P.code (pc + 1) = some ⟨0, P.variableNames.length⟩ := by
  have hpc : (Instruction.start :: P.allocation).length ≤ pc := by
    by_contra hlt
    rw [P.code_eq, List.getElem?_append_left (by omega)] at hi
    rcases P.mem_entry (List.mem_of_getElem? hi) with h | h
    · exact hs h
    · exact ha h
  obtain ⟨h, hf⟩ := Program.frameAt_code hP hpc
  obtain ⟨h', hf'⟩ := Program.frameAt_code hP (Nat.le_succ_of_le hpc)
  have hafter := hf'
  rw [frameAt_succ hi, hf, Option.bind_some, Frame.after_eq_some] at hafter
  obtain ⟨⟨-, hall, -⟩, hframe⟩ := hafter
  have hh : h = i.operands := hall hr
  have hh' : h - i.operands + i.results = h' := congrArg Frame.height hframe
  obtain rfl : h' = 0 := by omega
  rw [← hh]
  exact ⟨hf, hf'⟩

lemma Program.sound_code {P : Program} (hP : P.WellNamed) :
    Sound P.code P.variableNames.length := by
  refine ⟨Program.frames_code hP, ?_, ?_, ?_⟩
  · exact fun n hn => (P.allocate_mem_code.1 hn).2
  · rw [P.code_eq, ← List.append_assoc, List.getLast?_concat]
  -- A jump stands in the body, and so does its anchor; both have an empty stack.
  · intro pc l hj
    have hm : .anchor l ∈ P.code := by
      have hbody : ∀ {i : Instruction}, i ≠ .start → i ≠ .allocate P.variableNames.length →
          i ≠ .halt → i ∈ P.code → i ∈ P.resolved.code 0 := by
        intro i hs ha hh hi
        rw [P.code_eq] at hi
        rcases List.mem_append.1 hi with hi | hi
        · rcases P.mem_entry hi with h | h
          · exact absurd h hs
          · exact absurd h ha
        · simpa [hh] using hi
      have hj' := hj.imp
        (fun h => hbody (by simp) (by simp) (by simp) (List.mem_of_getElem? h))
        (fun h => hbody (by simp) (by simp) (by simp) (List.mem_of_getElem? h))
      rw [P.code_eq]
      simp [Command.anchor_mem hj']
    have hafter : frameAt P.code (pc + 1) = some ⟨0, P.variableNames.length⟩ := by
      rcases hj with hj | hj
      · exact (Program.frameAt_of_results hP hj rfl (by simp) (by simp)).2
      · exact (Program.frameAt_of_results hP hj rfl (by simp) (by simp)).2
    refine ⟨?_, fun pc' hl => ?_⟩
    · rw [count_anchor]
      exact List.count_eq_one_of_mem P.nodup_anchors (mem_anchors hm)
    · rw [hafter]
      exact (Program.frameAt_of_results hP hl rfl (by simp) (by simp)).1

/-- **Compiled code never gets the machine stuck**: however far the machine gets, and whatever the
values, operations and inputs are, it stands at an instruction that is safe, with a stack whose
height depends on the place in the code only. -/
theorem compile_never_stuck (source : String) (code : List Instruction)
    (h : compile source = .ok code) :
    ∃ height : Nat → Nat, ∀ (D : Domain.{u}) (env : Env D Nat) (s : State D),
      Reaches code (.initial env) s →
        ∃ i, code[s.pc]? = some i ∧ s.stack.length = height s.pc ∧ Safe code env s i := by
  obtain ⟨P, e, -, hP, rfl⟩ := exists_program_of_compile h
  have hsound := Program.sound_code hP
  refine ⟨fun pc => ((frameAt P.code pc).map Frame.height).getD 0, fun D env s hr => ?_⟩
  obtain ⟨i, hi, hsafe⟩ := hsound.safe hr
  have hfits := (fits_initial hsound env).reaches hsound hr
  have hheight : ((frameAt P.code s.pc).map Frame.height).getD 0 = s.stack.length := by
    rw [hfits.framed]
    rfl
  exact ⟨i, hi, hheight.symm, hsafe⟩

/-- A text whose loop never ends by itself, with values on the stack while it reads. -/
def endless : String :=
  "program p; var x, y: integer; begin while 1 do begin read(x); y := x*(x-y); write(y) end end."

def endlessCode : List Instruction :=
  [.start, .allocate 2, .anchor ⟨1⟩, .constant 1, .jumpIfFalse ⟨2⟩, .read, .store 0, .load 0,
    .load 0, .load 1, .operate .subtract, .operate .multiply, .store 1, .load 1, .write,
    .jump ⟨1⟩, .anchor ⟨2⟩, .halt]

theorem compile_never_stuck_endless :
    compile endless = .ok endlessCode ∧
      ∃ height : Nat → Nat, ∀ (D : Domain.{0}) (env : Env D Nat) (s : State D),
        Reaches endlessCode (.initial env) s →
          ∃ i, endlessCode[s.pc]? = some i ∧ s.stack.length = height s.pc ∧
            Safe endlessCode env s i := by
  have h : compile endless = .ok endlessCode := by decide +kernel
  exact ⟨h, compile_never_stuck endless endlessCode h⟩

end Grammar

end OnePass
