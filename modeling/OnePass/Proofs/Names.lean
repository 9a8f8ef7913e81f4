import Mathlib.Data.List.Basic
import OnePass.Draft
import OnePass.Proofs.Result

/-!
What declaring and using names does to a draft.
-/

namespace OnePass.Draft

variable {d d' : Draft} {t : Token} {ts : List Token}

@[simp] lemma symbols_emit (d : Draft) (i : Instruction) : (d.emit i).symbols = d.symbols := rfl

@[simp] lemma symbols_record (d : Draft) (e : Event) : (d.record e).symbols = d.symbols := rfl

@[simp] lemma symbols_newLabel (d : Draft) : d.newLabel.2.symbols = d.symbols := rfl

/-! ### Using names and literals -/

lemma addressOf_of_mem (h : t.lexeme ∈ d.symbols.names) :
    d.addressOf t = .ok (d.symbols.names.idxOf t.lexeme) := by
  have hs : (d.symbols.names.idxOf? t.lexeme).isSome := List.isSome_idxOf?.2 h
  obtain ⟨a, ha⟩ := Option.isSome_iff_exists.1 hs
  have hi : d.symbols.names.idxOf t.lexeme = a := by rw [List.idxOf_eq_getD_idxOf?, ha]; rfl
  simp [addressOf, SymbolTable.resolve, SymbolTable.get?, ha, hi]

lemma addressOf_of_not_mem (h : t.lexeme ∉ d.symbols.names) :
    d.addressOf t = .error ⟨.undeclared t, d⟩ := by
  simp [addressOf, SymbolTable.resolve, SymbolTable.get?, List.idxOf?_eq_none_iff.2 h, fail]

lemma addressOf_eq_error {s : Stop} (h : d.addressOf t = .error s) :
    t.lexeme ∉ d.symbols.names ∧ s = ⟨.undeclared t, d⟩ := by
  have hn : t.lexeme ∉ d.symbols.names := by
    intro hm
    rw [addressOf_of_mem hm] at h
    cases h
  rw [addressOf_of_not_mem hn] at h
  exact ⟨hn, (Except.error.inj h).symm⟩

lemma valueOf_eq_error {s : Stop} (h : d.valueOf t = .error s) :
    Text.literalValue? t.lexeme = none ∧ s = ⟨.literalTooLarge t.position t.lexeme, d⟩ := by
  unfold valueOf at h
  split at h
  · cases h
  · rename_i hv
    exact ⟨hv, (Except.error.inj h).symm⟩

/-! ### Declaring names -/

lemma declareAll_append (d : Draft) (ts us : List Token) :
    d.declareAll (ts ++ us) = d.declareAll ts >>= fun d => d.declareAll us := by
  simp [declareAll, List.foldlM_append]

lemma declare_of_not_mem (h : t.lexeme ∉ d.symbols.names) :
    ∃ d', d.declare t = .ok d' ∧ d'.symbols.names = d.symbols.names ++ [t.lexeme] ∧
      d'.labels = d.labels ∧ d'.code = d.code := by
  simp [declare, SymbolTable.declare, h, record]

lemma declare_of_mem (h : t.lexeme ∈ d.symbols.names) :
    d.declare t = .error ⟨.redeclared t, d⟩ := by
  simp [declare, SymbolTable.declare, h, fail]

/-- New names are added in order, and nothing else changes but the events. -/
lemma declareAll_of_nodup (h : (d.symbols.names ++ ts.map Token.lexeme).Nodup) :
    ∃ d', d.declareAll ts = .ok d' ∧
      d'.symbols.names = d.symbols.names ++ ts.map Token.lexeme ∧
      d'.labels = d.labels ∧ d'.code = d.code := by
  induction ts generalizing d with
  | nil => exact ⟨d, rfl, by simp⟩
  | cons t ts ih =>
    have ht : t.lexeme ∉ d.symbols.names := by
      intro hm
      exact (List.nodup_append.1 h).2.2 _ hm _ (by simp) rfl
    obtain ⟨d₁, h₁, hn, hl, hc⟩ := declare_of_not_mem ht
    obtain ⟨d₂, h₂, hn₂, hl₂, hc₂⟩ := ih (d := d₁) (by simpa [hn] using h)
    refine ⟨d₂, ?_, by simp [hn₂, hn], hl₂.trans hl, hc₂.trans hc⟩
    rw [declareAll, List.foldlM_cons, h₁]
    exact h₂

/-- The first name that is taken stops the declarations, after those before it. -/
lemma declareAll_eq_error {s : Stop} (h : d.declareAll ts = .error s) :
    ∃ us t vs, ts = us ++ t :: vs ∧ s.fault = .redeclared t ∧
      s.draft.symbols.names = d.symbols.names ++ us.map Token.lexeme ∧
      t.lexeme ∈ d.symbols.names ++ us.map Token.lexeme := by
  induction ts generalizing d with
  | nil => cases h
  | cons t ts ih =>
    rw [declareAll, List.foldlM_cons] at h
    by_cases ht : t.lexeme ∈ d.symbols.names
    · rw [declare_of_mem ht] at h
      cases h
      exact ⟨[], t, ts, rfl, rfl, by simp, by simpa using ht⟩
    · obtain ⟨d₁, h₁, hn, -⟩ := declare_of_not_mem ht
      rw [h₁] at h
      obtain ⟨us, x, vs, rfl, hf, hd, hx⟩ := ih (d := d₁) h
      rw [hn] at hd hx
      exact ⟨t :: us, x, vs, rfl, hf, by simpa using hd, by simpa using hx⟩

lemma nodup_of_declareAll (h : d.declareAll ts = .ok d') :
    (d.symbols.names ++ ts.map Token.lexeme).Nodup := by
  induction ts generalizing d with
  | nil => simpa using d.symbols.nodup
  | cons t ts ih =>
    rw [declareAll, List.foldlM_cons] at h
    by_cases ht : t.lexeme ∈ d.symbols.names
    · rw [declare_of_mem ht] at h
      cases h
    · obtain ⟨d₁, h₁, hn, -⟩ := declare_of_not_mem ht
      rw [h₁] at h
      have hd := ih (d := d₁) h
      rw [hn] at hd
      simpa using hd

end OnePass.Draft
