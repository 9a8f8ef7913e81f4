import OnePass.Proofs.Lexicon
import OnePass.Proofs.Result

/-!
The scanner, seen from the places between lexemes.

A lexeme is closed only when the next character does not continue it. From one place between
lexemes to the next, the scanner skips white space or takes a lexeme as long as it can be.
-/

namespace OnePass

/-- The place after some text. -/
def Position.advance (p : Position) (text : List Char) : Position := text.foldl Position.next p

namespace Position

variable (p : Position)

@[simp] lemma advance_nil : p.advance [] = p := rfl

@[simp] lemma advance_cons (c : Char) (text : List Char) :
    p.advance (c :: text) = (p.next c).advance text := rfl

@[simp] lemma advance_append (text more : List Char) :
    p.advance (text ++ more) = (p.advance text).advance more := by
  simp [advance, List.foldl_append]

end Position

def AllBlank (gap : List Char) : Prop := ∀ c ∈ gap, Text.isBlank c = true

instance : DecidablePred AllBlank := fun gap =>
  decidable_of_iff (gap.all Text.isBlank) (by rw [AllBlank, List.all_eq_true])

variable {p : Position} {c x : Char} {cs rest gap : List Char}

/-! ### Open lexemes -/

namespace Lexeme

/-- The lexeme that begins at `p` with the character `c` and goes on with `cs`. -/
def spelled (p : Position) (c : Char) (cs : List Char) : Lexeme :=
  ⟨.ofFirst c, String.ofList (c :: cs), p⟩

lemma spelled_push (p : Position) (c : Char) (cs : List Char) (x : Char) :
    { spelled p c cs with text := (spelled p c cs).text.push x } = spelled p c (cs ++ [x]) := by
  simp [spelled, ← String.toList_inj]

lemma accepts_spelled (h : cs = [] ∨ IsLexeme (c :: cs)) :
    (spelled p c cs).accepts x = true ↔ IsLexeme (c :: cs ++ [x]) := by
  by_cases ha : c.isAlpha = true
  · have hcs : ∀ y ∈ cs, y.isAlphanum = true := by
      rcases h with rfl | h
      · simp
      · exact (isLexeme_of_isAlpha ha).1 h
    rw [List.cons_append, isLexeme_of_isAlpha ha]
    simpa [spelled, accepts, LexemeClass.ofFirst, ha, or_imp, forall_and] using fun _ => hcs
  by_cases hd : c.isDigit = true
  · have hcs : ∀ y ∈ cs, y.isDigit = true := by
      rcases h with rfl | h
      · simp
      · exact (isLexeme_of_isDigit hd).1 h
    rw [List.cons_append, isLexeme_of_isDigit hd]
    simpa [spelled, accepts, LexemeClass.ofFirst, ha, hd, or_imp, forall_and] using fun _ => hcs
  · have hc : ¬ c.isAlphanum = true := by simp [isAlphanum_iff, ha, hd]
    rw [List.cons_append, isLexeme_of_not_isAlphanum hc]
    simp [spelled, accepts, LexemeClass.ofFirst, ha, hd, isSome_ofSymbol?]

lemma close_of_spells {k : Kind} {s : String} (h : Spells k s) (hs : s.toList = c :: cs)
    (hk : k = .number → Text.decimalValue s.toList ≤ Text.maxLiteral) :
    (spelled p c cs).close = .ok ⟨k, s, p⟩ := by
  have ht : String.ofList (c :: cs) = s := by rw [← hs, String.ofList_toList]
  cases h with
  | reserved h =>
    have hw := isWord_of_mem h
    rw [hs] at hw
    simp [spelled, close, LexemeClass.ofFirst, hw.1, ht, ofWord_of_mem h]
  | identifier h hr =>
    rw [hs] at h
    simp [spelled, close, LexemeClass.ofFirst, h.1, ht, ofWord_of_not_mem hr]
  | numeral h =>
    rw [hs] at h
    have hd : c.isDigit = true := h.2 c (by simp)
    have ha : ¬ c.isAlpha = true := fun ha => not_isDigit_of_isAlpha ha hd
    simp [spelled, close, LexemeClass.ofFirst, ha, hd, ht, Text.literalValue?, hk rfl]
  | sign h =>
    have hm := isSign_of_mem h
    rw [hs] at hm
    have hc := (hm.mem c (by simp)).1
    rw [isAlphanum_iff, not_or] at hc
    simp [spelled, close, LexemeClass.ofFirst, hc, ht, ofSymbol?_eq_some.2 h]

lemma close_of_isNumeral (h : IsNumeral (c :: cs))
    (hv : Text.maxLiteral < Text.decimalValue (c :: cs)) :
    (spelled p c cs).close = .error (.literalTooLarge p (String.ofList (c :: cs))) := by
  have hd : c.isDigit = true := h.2 c (by simp)
  have ha : ¬ c.isAlpha = true := fun ha => not_isDigit_of_isAlpha ha hd
  have hn : ¬ Text.decimalValue (c :: cs) ≤ Text.maxLiteral := by omega
  simp [spelled, close, LexemeClass.ofFirst, ha, hd, Text.literalValue?, hn]

lemma close_of_not_isLexeme (h : ¬ IsLexeme [c]) :
    (spelled p c []).close = .error (.strayCharacter p c) := by
  have ha : ¬ c.isAlpha = true := fun ha => h ((isLexeme_of_isAlpha ha).2 (by simp))
  have hd : ¬ c.isDigit = true := fun hd => h ((isLexeme_of_isDigit hd).2 (by simp))
  have hs : Kind.ofSymbol? (String.singleton c) = none := by
    rw [← Option.not_isSome_iff_eq_none, isSome_ofSymbol?, String.toList_singleton]
    exact fun hs => h (.inr (.inr hs))
  simp [spelled, close, LexemeClass.ofFirst, ha, hd, hs]

end Lexeme

/-! ### Between lexemes -/

/-- The tokens of a text that begins at `p`. -/
def scanFrom (p : Position) (text : List Char) : Except Fault (List Token) :=
  Scanner.run ⟨p, none, #[]⟩ text >>= Scanner.finish

lemma tokenize_eq (source : String) : tokenize source = scanFrom .start source.toList := rfl

namespace Scanner

lemma run_finish (p : Position) (l : Option Lexeme) (ts : Array Token) (text : List Char) :
    (Scanner.mk p l ts).run text >>= finish =
      ((Scanner.mk p l #[]).run text >>= finish).map (ts.toList ++ ·) := by
  induction text generalizing p l ts with
  | nil =>
    cases l with
    | none => simp [finish, closeCurrent, Except.map]
    | some l =>
      simp only [run_nil, ok_bind, finish, closeCurrent]
      cases l.close <;> simp [Except.map]
  | cons c text ih =>
    rw [run_cons, run_cons]
    cases l with
    | none => exact ih _ _ ts
    | some l =>
      simp only [step]
      -- Tokens are added only where an open lexeme is closed.
      by_cases ha : l.accepts c = true
      · simp only [if_pos ha, ok_bind]
        exact ih _ _ ts
      · simp only [if_neg ha, closeCurrent]
        cases l.close with
        | error e => rfl
        | ok t =>
          simp only [Except.map, ok_bind, openAt]
          rw [ih _ _ (ts.push t), ih _ _ (#[].push t)]
          cases run _ text >>= finish <;> simp [Except.map]

lemma run_lexeme (hb : ¬ Text.isBlank c = true) (h : cs = [] ∨ IsLexeme (c :: cs)) :
    (Scanner.mk p none #[]).run (c :: cs) =
      .ok ⟨p.advance (c :: cs), some (.spelled p c cs), #[]⟩ := by
  induction cs using List.reverseRecOn with
  | nil => simp [step, openAt, hb, Lexeme.begin, Lexeme.spelled]
  | append_singleton cs x ih =>
    have hl : IsLexeme (c :: cs ++ [x]) := h.resolve_left (by simp)
    have ho : cs = [] ∨ IsLexeme (c :: cs) := by
      by_cases hcs : cs = []
      · exact .inl hcs
      · exact .inr (hl.of_concat hcs)
    have ha : (Lexeme.spelled p c cs).accepts x = true := (Lexeme.accepts_spelled ho).2 hl
    rw [← List.cons_append, run_append, ih ho, ok_bind, run_cons]
    simp only [step, if_pos ha, ok_bind, run_nil, Lexeme.spelled_push]
    simp

end Scanner

@[simp] lemma scanFrom_nil (p : Position) : scanFrom p [] = .ok [⟨.eof, "", p⟩] := rfl

lemma scanFrom_gap (p : Position) {gap : List Char} (h : AllBlank gap) (rest : List Char) :
    scanFrom p (gap ++ rest) = scanFrom (p.advance gap) rest := by
  induction gap generalizing p with
  | nil => rfl
  | cons c gap ih =>
    have hc : Text.isBlank c = true := h c (by simp)
    have hs : scanFrom p (c :: gap ++ rest) = scanFrom (p.next c) (gap ++ rest) := by
      simp [scanFrom, Scanner.step, Scanner.openAt, hc]
    rw [hs, ih (p.next c) fun x hx => h x (by simp [hx]), Position.advance_cons]

/-- **A lexeme** is taken as a whole when the character after it does not continue it. -/
theorem scanFrom_lexeme (p : Position) (hb : ¬ Text.isBlank c = true)
    (h : cs = [] ∨ IsLexeme (c :: cs)) (hr : ∀ x ∈ rest.head?, ¬ IsLexeme (c :: cs ++ [x])) :
    scanFrom p (c :: cs ++ rest) = (Lexeme.spelled p c cs).close >>= fun t =>
      (scanFrom (p.advance (c :: cs)) rest).map (t :: ·) := by
  rw [scanFrom, Scanner.run_append, Scanner.run_lexeme hb h, ok_bind]
  cases rest with
  | nil =>
    simp only [Scanner.run_nil, ok_bind, Scanner.finish, Scanner.closeCurrent]
    cases (Lexeme.spelled p c cs).close <;> simp [Except.map]
  | cons x rest =>
    have ha : ¬ (Lexeme.spelled p c cs).accepts x = true :=
      fun ha => hr x rfl ((Lexeme.accepts_spelled h).1 ha)
    rw [Scanner.run_cons, Scanner.step]
    simp only [if_neg ha, Scanner.closeCurrent]
    cases (Lexeme.spelled p c cs).close with
    | error e => rfl
    | ok t =>
      simp only [Except.map, ok_bind, Scanner.openAt]
      rw [Scanner.run_finish _ _ (#[].push t)]
      rfl

end OnePass
