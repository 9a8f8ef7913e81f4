import OnePass.Goal

/-!
Reading a program against a stack of goals, in one pass over its tokens.
-/

namespace OnePass

structure Parse where
  /-- What is still to be met, the next goal first. -/
  goals : List Goal
  draft : Draft
  deriving DecidableEq

namespace Parse

/-- Meets goals until one takes the token. -/
def settle (t : Token) : List Goal → Draft → Except Stop Parse
  | [], d => .ok ⟨[], d⟩
  | g :: gs, d => do
    match ← g.meet d t with
    | .pass d => settle t gs d
    | .take d new => return ⟨new ++ gs, d⟩

def step (p : Parse) (t : Token) : Except Stop Parse := settle t p.goals p.draft

def run (p : Parse) (ts : List Token) : Except Stop Parse := ts.foldlM step p

@[simp] theorem run_nil (p : Parse) : p.run [] = .ok p := rfl

@[simp] theorem run_cons (p : Parse) (t : Token) (ts : List Token) :
    p.run (t :: ts) = p.step t >>= fun p => p.run ts := rfl

theorem run_append (p : Parse) (ts us : List Token) :
    p.run (ts ++ us) = p.run ts >>= fun p => p.run us := by
  simp [run, List.foldlM_append]

end Parse

/-- Reads a whole program. The last token is the end of input, which meets the last goal. -/
def parseProgram (d : Draft) (ts : List Token) : Except Stop Draft :=
  (Parse.run ⟨Goal.program, d⟩ ts).map Parse.draft

end OnePass
