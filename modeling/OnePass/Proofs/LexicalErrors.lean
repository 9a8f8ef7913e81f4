import Mathlib.Data.Nat.Digits.Defs
import OnePass.Proofs.Tiling

/-!
Where a text stops being scanned, and what is reported there.
-/

namespace OnePass

/-! ### The end of what has been scanned -/

variable {p : Position} {tiles : List Tile} {rest gap : List Char} {a c : Char} {f : Fault}

lemma Tiled.exists_last (h : Tiled p tiles (gap ++ rest)) (hg : AllBlank gap)
    (ha : (layout tiles gap).getLast? = some a) (hb : ¬ Text.isBlank a = true) :
    ∃ w, IsLexeme (w ++ [a]) ∧ ∀ c ∈ rest.head?, ¬ IsLexeme (w ++ [a] ++ [c]) := by
  rcases List.eq_nil_or_concat gap with rfl | ⟨gap, x, rfl⟩
  case inr =>
    rw [List.concat_eq_append, layout_append, List.getLast?_concat, Option.some.injEq] at ha
    exact absurd (hg x (by simp)) (ha ▸ hb)
  rcases List.eq_nil_or_concat tiles with rfl | ⟨tiles, x, rfl⟩
  · simp at ha
  rw [List.concat_eq_append] at h ha
  have hf := tiled_iff.1 h tiles x [] rfl
  have hl : IsLexeme x.lexeme := hf.spells.isLexeme
  have he : x.lexeme.getLast? = some a := by
    have hn : layout (tiles ++ [x]) [] = tiles.flatMap Tile.text ++ x.gap ++ x.lexeme := by
      simp [layout, Tile.text]
    rwa [hn, List.getLast?_append, List.getLast?_eq_some_getLast hl.ne_nil, Option.some_or,
      ← List.getLast?_eq_some_getLast] at ha
  obtain ⟨w, hw⟩ := List.getLast?_eq_some_iff.1 he
  exact ⟨w, hw ▸ hl, fun c hc => hw ▸ hf.ends c hc⟩

lemma Tiled.append (h : Tiled p tiles gap)
    (hj : ∀ w a, IsLexeme (w ++ [a]) → (layout tiles gap).getLast? = some a →
      ∀ c ∈ rest.head?, ¬ IsLexeme (w ++ [a] ++ [c])) : Tiled p tiles (gap ++ rest) := by
  refine tiled_iff.2 fun before x after he => ?_
  have hf := tiled_iff.1 h before x after he
  refine ⟨hf.blank, hf.spells, hf.inRange, hf.position, fun c hc => ?_⟩
  rw [layout_append] at hc
  -- Only the lexeme that ends the text can be carried on by what is appended.
  cases ht : layout after gap with
  | cons y ys =>
    rw [ht] at hc
    exact hf.ends c (by rw [ht]; exact hc)
  | nil =>
    rw [ht, List.nil_append] at hc
    obtain ⟨w, a, hw⟩ : ∃ w a, x.lexeme = w ++ [a] := by
      rcases List.eq_nil_or_concat x.lexeme with hx | ⟨w, a, hx⟩
      · exact absurd hx hf.spells.isLexeme.ne_nil
      · exact ⟨w, a, by rw [hx, List.concat_eq_append]⟩
    have hl : IsLexeme (w ++ [a]) := hw ▸ hf.spells.isLexeme
    have he : (layout tiles gap).getLast? = some a := by
      have hn : layout tiles gap =
          before.flatMap Tile.text ++ x.gap ++ x.lexeme ++ layout after gap := by
        rw [he]
        simp [layout, Tile.text]
      rw [hn, ht, hw, List.append_nil, ← List.append_assoc, List.getLast?_concat]
    exact hw ▸ hj w a hl he c hc

/-! ### Causes -/

/-- No token begins here: no lexeme begins with the character, or it is a `<` without its `=`. -/
def BeginsNothing (c : Char) (rest : List Char) : Prop :=
  ¬ Text.isBlank c = true ∧
    ((∀ w, ¬ IsLexeme (c :: w)) ∨ c = '<' ∧ rest.head? ≠ some '=')

/-- The number that digits stand for, by their places: the last one counts ones. -/
def placeValue (digits : List Char) : Nat :=
  Nat.ofDigits 10 (digits.reverse.map fun c => c.toNat - '0'.toNat)

/-- After `a` comes a character that begins no token and does not make `:` into `:=`. -/
def StrayAfter (a b : List Char) : Prop :=
  ∃ c rest, b = c :: rest ∧ BeginsNothing c rest ∧ ¬ (a.getLast? = some ':' ∧ c = '=')

/-- After `a` comes a numeral, not the rest of one nor of a word, that stands for too large a
number. -/
def OverflowAfter (a b : List Char) : Prop :=
  (∀ x ∈ a.getLast?, ¬ x.isAlphanum = true) ∧ 2 ^ 63 - 1 < placeValue (b.takeWhile Char.isDigit)

/-- The text can be scanned as far as `a`, and no further because of what `b` begins with. -/
structure BreaksAt (source a b : String) : Prop where
  text_eq : source = a ++ b
  scanned : ∃ ts, tokenize a = .ok ts
  cause : StrayAfter a.toList b.toList ∨ OverflowAfter a.toList b.toList

lemma decimalValue_eq (digits : List Char) : Text.decimalValue digits = placeValue digits := by
  induction digits using List.reverseRecOn with
  | nil => rfl
  | append_singleton digits c ih =>
    have hd : Text.decimalValue (digits ++ [c]) =
        10 * Text.decimalValue digits + (c.toNat - '0'.toNat) := by
      simp [Text.decimalValue, List.foldl_append]
    rw [hd, ih, placeValue, placeValue, List.reverse_append, List.reverse_singleton,
      List.singleton_append, List.map_cons, Nat.ofDigits_cons]
    simp
    omega

lemma maxLiteral_lt_iff {digits : List Char} :
    Text.maxLiteral < Text.decimalValue digits ↔ 2 ^ 63 - 1 < placeValue digits := by
  rw [decimalValue_eq]
  rfl

/-! ### Characters that begin nothing -/

lemma isLexeme_of_isAlphanum (h : c.isAlphanum = true) : IsLexeme [c] := by
  rcases isAlphanum_iff.1 h with ha | hd
  · exact (isLexeme_of_isAlpha ha).2 (by simp)
  · exact (isLexeme_of_isDigit hd).2 (by simp)

lemma isLexeme_pair {x : Char} (hc : ¬ IsLexeme [c]) (h : IsLexeme [c, x]) : c = '<' ∧ x = '=' := by
  have hs : ∀ v ∈ signs.map (fun x => x.1.toList), v.length = 2 → v.take 1 ∉ signs.map
      (fun x => x.1.toList) → v = ['<', '='] := by decide
  have ha : ¬ c.isAlphanum = true := fun ha => hc (isLexeme_of_isAlphanum ha)
  rw [isLexeme_of_not_isAlphanum ha] at hc h
  simpa using hs _ h rfl hc

lemma beginsNothing_iff : BeginsNothing c rest ↔
    ¬ Text.isBlank c = true ∧ ¬ IsLexeme [c] ∧ ∀ x ∈ rest.head?, ¬ IsLexeme [c, x] := by
  refine and_congr_right fun hb => ?_
  constructor
  · rintro (h | ⟨rfl, hr⟩)
    · exact ⟨h [], fun x _ => h [x]⟩
    · have hc : ¬ IsLexeme ['<'] := by decide
      refine ⟨hc, fun x hx hl => hr ?_⟩
      obtain ⟨-, rfl⟩ := isLexeme_pair hc hl
      exact hx
  · rintro ⟨hc, hr⟩
    by_cases h : ∀ w, ¬ IsLexeme (c :: w)
    · exact .inl h
    · push Not at h
      obtain ⟨w, hw⟩ := h
      cases w with
      | nil => exact absurd hw hc
      | cons y w =>
        have hl : IsLexeme ([c] ++ y :: w) := hw
        obtain ⟨rfl, rfl⟩ := isLexeme_pair hc hl.of_append
        exact .inr ⟨rfl, fun he => hr '=' he (by decide)⟩

lemma BeginsNothing.not_isAlphanum (h : BeginsNothing c rest) : ¬ c.isAlphanum = true :=
  fun ha => (beginsNothing_iff.1 h).2.1 (isLexeme_of_isAlphanum ha)

/-! ### From the cause to the fault -/

section Cause

variable {a b : List Char}

lemma StrayAfter.fails (h : StrayAfter a b) (p : Position) :
    ∃ c rest, b = c :: rest ∧ Fails p (.strayCharacter p c) b := by
  obtain ⟨c, rest, rfl, hc, -⟩ := h
  obtain ⟨hb, hc, hr⟩ := beginsNothing_iff.1 hc
  exact ⟨c, rest, rfl, .stray hb hc hr⟩

lemma OverflowAfter.ne_nil (h : OverflowAfter a b) : b.takeWhile Char.isDigit ≠ [] := by
  intro he
  have hv := h.2
  rw [he] at hv
  exact absurd hv (by decide)

lemma OverflowAfter.fails (h : OverflowAfter a b) (p : Position) :
    Fails p (.literalTooLarge p (String.ofList (b.takeWhile Char.isDigit))) b := by
  have hn : IsNumeral (b.takeWhile Char.isDigit) :=
    ⟨h.ne_nil, fun c hc => List.mem_takeWhile_imp hc⟩
  have hr : ∀ c ∈ (b.dropWhile Char.isDigit).head?, ¬ c.isDigit = true := by
    intro c hc
    have hd := List.head?_dropWhile_not Char.isDigit b
    rw [Option.mem_def.1 hc] at hd
    simpa using hd
  have hf := Fails.numeral (p := p) hn hr (maxLiteral_lt_iff.2 h.2)
  rwa [List.takeWhile_append_dropWhile] at hf

lemma not_isLexeme_of_cause (h : StrayAfter a b ∨ OverflowAfter a b) {w : List Char} {x : Char}
    (hw : IsLexeme (w ++ [x])) (hx : a.getLast? = some x) :
    ∀ c ∈ b.head?, ¬ IsLexeme (w ++ [x] ++ [c]) := by
  intro c hc hl
  rcases h with ⟨y, rest, rfl, hb, hn⟩ | h
  · obtain rfl : y = c := by simpa using hc
    rcases hw.joins hl with ⟨rfl, rfl⟩ | ⟨-, ha⟩
    · exact hn ⟨hx, rfl⟩
    · exact hb.not_isAlphanum ha
  · have hd : c.isDigit = true := by
      cases b with
      | nil => simp at hc
      | cons y b =>
        obtain rfl : y = c := by simpa using hc
        by_contra hd
        exact h.ne_nil (by simp [hd])
    rcases hw.joins hl with ⟨rfl, rfl⟩ | ⟨ha, -⟩
    · exact absurd hd (by decide)
    · exact h.1 x hx ha

/-! ### From the fault to the cause -/

lemma isLexeme_colon {w : List Char} (h : IsLexeme (w ++ [':'])) :
    IsLexeme (w ++ [':'] ++ ['=']) := by
  have hs : ∀ v ∈ signs.map (fun x => x.1.toList), v.getLast? = some ':' →
      IsLexeme (v ++ ['=']) := by decide
  rcases h.mem_or_isSign with h | h
  · exact absurd (h ':' (by simp)) (by decide)
  · exact hs _ h (by simp)

lemma isLexeme_digit {w : List Char} {x d : Char} (h : IsLexeme (w ++ [x]))
    (hx : x.isAlphanum = true) (hd : d.isDigit = true) : IsLexeme (w ++ [x] ++ [d]) := by
  obtain ⟨c, cs, hc⟩ := List.exists_cons_of_ne_nil h.ne_nil
  have hm := hc ▸ h.mem_or_isSign.resolve_right fun hs => (hs.mem x (by simp)).1 hx
  rw [hc] at h ⊢
  rw [List.cons_append]
  rcases isAlphanum_iff.1 (hm c (by simp)) with ha | hd'
  · rw [isLexeme_of_isAlpha ha] at h ⊢
    simpa [or_imp, forall_and, isAlphanum_iff.2 (.inr hd)] using h
  · rw [isLexeme_of_isDigit hd'] at h ⊢
    simpa [or_imp, forall_and, hd] using h

lemma Fails.cause (h : Fails (p.advance (layout tiles gap)) f b) (ht : Tiled p tiles (gap ++ b))
    (hg : AllBlank gap) : StrayAfter (layout tiles gap) b ∨ OverflowAfter (layout tiles gap) b := by
  cases h with
  | @stray c rest hb hc hr =>
    refine .inl ⟨c, rest, rfl, beginsNothing_iff.2 ⟨hb, hc, hr⟩, ?_⟩
    rintro ⟨hl, rfl⟩
    -- A `=` that follows a `:` would have been joined to it.
    obtain ⟨w, hw, hn⟩ := ht.exists_last hg hl (by decide)
    exact hn '=' rfl (isLexeme_colon hw)
  | @numeral digits rest hd hr hv =>
    have he : (digits ++ rest).takeWhile Char.isDigit = digits := by
      rw [List.takeWhile_append_of_pos hd.2]
      cases rest with
      | nil => simp
      | cons c rest => simp [hr c rfl]
    -- Digits that follow a letter or a digit would belong to that lexeme.
    refine .inr ⟨fun x hx ha => ?_, by rwa [he, ← maxLiteral_lt_iff]⟩
    obtain ⟨w, hw, hn⟩ := ht.exists_last hg hx (not_isBlank_of_isAlphanum ha)
    obtain ⟨d, ds, rfl⟩ := List.exists_cons_of_ne_nil hd.1
    exact hn d rfl (isLexeme_digit hw ha (hd.2 d (by simp)))

end Cause

/-! ### Texts that cannot be scanned -/

lemma BreaksAt.tokenize_eq_error {source a b : String} (h : BreaksAt source a b)
    (hf : Fails (.after a.toList) f b.toList) : tokenize source = .error f := by
  obtain ⟨ts, ha⟩ := h.scanned
  rw [tokenize_eq] at ha
  obtain ⟨tiles, gap, he, hg, ht, -⟩ := exists_tiled_of_ok ha
  have ht' : Tiled .start tiles (gap ++ b.toList) :=
    ht.append fun w x hw hx => not_isLexeme_of_cause h.cause hw (he ▸ hx)
  rw [tokenize_eq, h.text_eq, String.toList_append, he, ← layout_append, ht'.scanFrom_gap hg,
    ← he, Position.advance_start, hf.scanFrom]
  rfl

lemma BreaksAt.exists_fails {source a b : String} (h : BreaksAt source a b) :
    ∃ f, Fails (.after a.toList) f b.toList ∧ f.position = .after a.toList := by
  rcases h.cause with hc | hc
  · obtain ⟨c, -, -, hf⟩ := hc.fails (.after a.toList)
    exact ⟨_, hf, rfl⟩
  · exact ⟨_, hc.fails _, rfl⟩

lemma exists_breaksAt {source : String} (h : tokenize source = .error f) :
    ∃ a b, BreaksAt source a b := by
  rw [tokenize_eq] at h
  obtain ⟨tiles, gap, rest, he, ht, hg, rfl | ⟨f', hf⟩⟩ := exists_tiled .start source.toList
  -- All of the text is tiled, and then the scan succeeds.
  · rw [List.append_nil] at he ht
    rw [he, ht.scanFrom_blank hg] at h
    cases h
  · refine ⟨String.ofList (layout tiles gap), String.ofList rest, ?_, ?_, ?_⟩
    · rw [← String.toList_inj, he, layout_append]
      simp
    · rw [tokenize_eq, String.toList_ofList]
      exact ⟨_, ht.of_append.scanFrom_blank hg⟩
    · simpa using hf.cause ht hg

lemma eq_of_after_eq {a b a' b' : List Char} (he : a ++ b = a' ++ b')
    (hp : Position.after a = Position.after a') : a = a' ∧ b = b' := by
  have hn : ∀ u v : List Char, Position.after u = Position.after (u ++ v) → v = [] := by
    intro u v h
    by_contra hv
    have hb := (Position.after u).before_advance hv
    rw [← Position.advance_start, ← Position.advance_append, Position.advance_start,
      Position.advance_start, ← h] at hb
    unfold Position.Before at hb
    omega
  rcases List.append_eq_append_iff.1 he with ⟨v, rfl, rfl⟩ | ⟨v, rfl, rfl⟩
  · simp [hn a v hp]
  · simp [hn a' v hp.symm]

/-- **Lexical errors are exact**: a text cannot be scanned just when there is a place in it up to
which it can be, and where a character begins no token or a numeral is too large. There is only
one such place, and the error is reported there. -/
theorem tokenize_error_iff (source : String) :
    ((∃ f, tokenize source = .error f) ↔ ∃ a b, BreaksAt source a b) ∧
    (∀ a b a' b', BreaksAt source a b → BreaksAt source a' b' → a = a' ∧ b = b') ∧
    ∀ a b, BreaksAt source a b → ∃ f, tokenize source = .error f ∧ f.stage = .lexical ∧
      f.position = .after a.toList ∧
      (StrayAfter a.toList b.toList → ∃ c, b.toList.head? = some c ∧
        f.description = s!"unexpected character '{Text.escape c}'") ∧
      (OverflowAfter a.toList b.toList → f.description =
        s!"integer literal {String.ofList (b.toList.takeWhile Char.isDigit)} is out of range") := by
  refine ⟨⟨fun ⟨f, hf⟩ => exists_breaksAt hf, ?_⟩, ?_, ?_⟩
  · rintro ⟨a, b, h⟩
    obtain ⟨f, hf, -⟩ := h.exists_fails
    exact ⟨f, h.tokenize_eq_error hf⟩
  -- Both splits give the fault its position, and a position has one place in the text.
  · intro a b a' b' h h'
    obtain ⟨f, hf, hp⟩ := h.exists_fails
    obtain ⟨f', hf', hp'⟩ := h'.exists_fails
    obtain rfl : f = f' :=
      Except.error.inj ((h.tokenize_eq_error hf).symm.trans (h'.tokenize_eq_error hf'))
    have he : a.toList ++ b.toList = a'.toList ++ b'.toList := by
      rw [← String.toList_append, ← String.toList_append, ← h.text_eq, ← h'.text_eq]
    have hab := eq_of_after_eq he (hp.symm.trans hp')
    exact ⟨String.toList_inj.1 hab.1, String.toList_inj.1 hab.2⟩
  · intro a b h
    have hs : StrayAfter a.toList b.toList → ∃ c, b.toList.head? = some c ∧
        tokenize source = .error (.strayCharacter (.after a.toList) c) := by
      intro hc
      obtain ⟨c, rest, hb, hf⟩ := hc.fails (.after a.toList)
      exact ⟨c, by rw [hb]; rfl, h.tokenize_eq_error hf⟩
    have ho : OverflowAfter a.toList b.toList → tokenize source = .error (.literalTooLarge
        (.after a.toList) (String.ofList (b.toList.takeWhile Char.isDigit))) :=
      fun hc => h.tokenize_eq_error (hc.fails _)
    -- The two causes exclude each other, since they are different faults of one scan.
    rcases h.cause with hc | hc
    · obtain ⟨c, hb, ht⟩ := hs hc
      refine ⟨_, ht, rfl, rfl, fun _ => ⟨c, hb, rfl⟩, fun hc' => ?_⟩
      cases ht.symm.trans (ho hc')
    · refine ⟨_, ho hc, rfl, rfl, fun hc' => ?_, fun _ => rfl⟩
      obtain ⟨c, hb, ht⟩ := hs hc'
      cases ht.symm.trans (ho hc)

end OnePass
