import OnePass.Proofs.Code
import OnePass.Token.Scanner

/-!
The tokens of a text: the end of input comes once and last, and every literal is in range.
-/

namespace OnePass

/-- A token that a lexeme can give. -/
def Token.Plain (t : Token) : Prop :=
  t.kind ≠ .eof ∧ (t.kind = .number → (Text.literalValue? t.lexeme).isSome)

lemma Kind.ofWord_mem (word : String) : ofWord word ∈ identifier :: keywords := by
  unfold ofWord
  cases h : keywords.find? (·.spelling? == some word) with
  | none => simp
  | some k => simpa using Or.inr (List.mem_of_find?_eq_some h)

lemma Lexeme.plain_of_close {l : Lexeme} {t : Token} (h : l.close = .ok t) : t.Plain := by
  unfold close at h
  split at h
  · cases h
    have hk := Kind.ofWord_mem l.text
    simp only [Kind.keywords, List.mem_cons, List.not_mem_nil, or_false] at hk
    rcases hk with hk | hk | hk | hk | hk | hk | hk | hk | hk | hk <;> simp [Token.Plain, hk]
  · split at h
    · rename_i hv
      cases h
      simp [Token.Plain, hv]
    · cases h
  · split at h
    · rename_i k hs
      cases h
      have hk : k ∈ Kind.symbols := List.mem_of_find?_eq_some hs
      simp only [Kind.symbols, List.mem_cons, List.not_mem_nil, or_false] at hk
      rcases hk with rfl | rfl | rfl | rfl | rfl | rfl | rfl | rfl | rfl | rfl | rfl | rfl <;>
        simp [Token.Plain]
    · cases h

namespace Scanner

/-- All tokens so far come from lexemes. -/
def Plain (s : Scanner) : Prop := ∀ t ∈ s.tokens, t.Plain

lemma plain_closeCurrent {s s' : Scanner} (hs : s.Plain) (h : s.closeCurrent = .ok s') :
    s'.Plain := by
  unfold closeCurrent at h
  split at h
  · cases h
    exact hs
  · obtain ⟨t, ht, rfl⟩ := map_eq_ok.1 h
    intro x hx
    rcases Array.mem_push.1 hx with hx | rfl
    · exact hs x hx
    · exact Lexeme.plain_of_close ht

lemma plain_step {s s' : Scanner} {c : Char} (hs : s.Plain) (h : s.step c = .ok s') :
    s'.Plain := by
  unfold step at h
  split at h
  · cases h
    exact hs
  · split at h
    · cases h
      exact hs
    · obtain ⟨s₁, h₁, rfl⟩ := map_eq_ok.1 h
      have hp : s₁.Plain := plain_closeCurrent hs h₁
      exact hp

lemma plain_run {s s' : Scanner} {cs : List Char} (hs : s.Plain) (h : s.run cs = .ok s') :
    s'.Plain := by
  induction cs generalizing s with
  | nil =>
    cases h
    exact hs
  | cons c cs ih =>
    rw [run_cons] at h
    obtain ⟨s₁, h₁, h⟩ := bind_eq_ok.1 h
    exact ih (plain_step hs h₁) h

end Scanner

/-- **The tokens of a text** are those of its lexemes and then the end of input. -/
theorem tokenize_ok {source : String} {ts : List Token} (h : tokenize source = .ok ts) :
    ∃ (us : List Token) (e : Terminal .eof), ts = us ++ [e.1] ∧
      (∀ t ∈ us, t.kind ≠ .eof) ∧ Grammar.InRange us := by
  obtain ⟨s, hs, h⟩ := bind_eq_ok.1 h
  obtain ⟨s', hc, rfl⟩ := map_eq_ok.1 h
  have hp : s'.Plain :=
    Scanner.plain_closeCurrent (Scanner.plain_run (fun t ht => by simp [Scanner.init] at ht) hs) hc
  refine ⟨s'.tokens.toList, ⟨⟨.eof, "", s'.position⟩, rfl⟩, by simp, ?_, ?_⟩
  · exact fun t ht => (hp t (by simpa using ht)).1
  · exact fun t ht => (hp t (by simpa using ht)).2

end OnePass
