import Mathlib.Data.List.Induction
import Mathlib.Tactic.Lemma
import OnePass.Token.Scanner

/-!
The lexemes of the language: which texts they are, what kind each of them has, and when a
character makes a lexeme longer.
-/

namespace OnePass

/-! ### Texts that are lexemes -/

def reservedWords : List (String × Kind) :=
  [("program", .programKw), ("var", .varKw), ("integer", .integerKw), ("begin", .beginKw),
    ("end", .endKw), ("read", .readKw), ("write", .writeKw), ("while", .whileKw), ("do", .doKw)]

/-- The lexemes that are neither words nor numerals. -/
def signs : List (String × Kind) :=
  [(":=", .assign), ("<=", .lessEqual), ("+", .plus), ("-", .minus), ("*", .star), ("/", .slash),
    (";", .semicolon), (":", .colon), (",", .comma), ("(", .leftParen), (")", .rightParen),
    (".", .dot)]

/-- A letter, and after it letters and digits. -/
def IsWord : List Char → Prop
  | [] => False
  | c :: cs => c.isAlpha ∧ ∀ x ∈ cs, x.isAlphanum

def IsNumeral (w : List Char) : Prop := w ≠ [] ∧ ∀ c ∈ w, c.isDigit

def IsSign (w : List Char) : Prop := w ∈ signs.map fun x => x.1.toList

def IsLexeme (w : List Char) : Prop := IsWord w ∨ IsNumeral w ∨ IsSign w

instance : DecidablePred IsWord
  | [] => .isFalse id
  | c :: cs => decidable_of_iff (c.isAlpha ∧ cs.all Char.isAlphanum)
      (by rw [IsWord, List.all_eq_true])

instance : DecidablePred IsNumeral := fun w =>
  decidable_of_iff (w ≠ [] ∧ w.all Char.isDigit) (by rw [IsNumeral, List.all_eq_true])

instance : DecidablePred IsSign := fun w =>
  inferInstanceAs (Decidable (w ∈ signs.map fun x => x.1.toList))

instance : DecidablePred IsLexeme := fun w =>
  inferInstanceAs (Decidable (IsWord w ∨ IsNumeral w ∨ IsSign w))

/-- The text is a lexeme of the kind. A word is an identifier unless it is reserved. -/
inductive Spells : Kind → String → Prop
  | reserved {k : Kind} {s : String} (h : (s, k) ∈ reservedWords) : Spells k s
  | identifier {s : String} (h : IsWord s.toList) (hr : s ∉ reservedWords.map Prod.fst) :
      Spells .identifier s
  | numeral {s : String} (h : IsNumeral s.toList) : Spells .number s
  | sign {k : Kind} {s : String} (h : (s, k) ∈ signs) : Spells k s

/-! ### Characters -/

section Characters

variable {c : Char}

lemma isAlpha_iff :
    c.isAlpha = true ↔ 65 ≤ c.toNat ∧ c.toNat ≤ 90 ∨ 97 ≤ c.toNat ∧ c.toNat ≤ 122 := by
  change (decide (65 ≤ c.val ∧ c.val ≤ 90) ||
    decide (97 ≤ c.val) && decide (c.val ≤ 122)) = true ↔ _
  simp [UInt32.le_iff_toNat_le]

lemma isDigit_iff : c.isDigit = true ↔ 48 ≤ c.toNat ∧ c.toNat ≤ 57 := by
  simp [Char.isDigit, UInt32.le_iff_toNat_le]

lemma isAlphanum_iff : c.isAlphanum = true ↔ c.isAlpha = true ∨ c.isDigit = true := by
  simp [Char.isAlphanum]

lemma not_isDigit_of_isAlpha (h : c.isAlpha = true) : ¬ c.isDigit = true := by
  rw [isAlpha_iff] at h
  rw [isDigit_iff]
  omega

lemma not_isBlank_of_isAlphanum (h : c.isAlphanum = true) : ¬ Text.isBlank c = true := by
  rw [isAlphanum_iff, isAlpha_iff, isDigit_iff] at h
  simp [Text.isBlank, Text.CharSet.contains, Text.blank]
  omega

lemma IsWord.mem {w : List Char} (h : IsWord w) : ∀ x ∈ w, x.isAlphanum = true := by
  cases w with
  | nil => exact h.elim
  | cons a w =>
    rw [List.forall_mem_cons]
    exact ⟨isAlphanum_iff.2 (.inl h.1), h.2⟩

lemma IsNumeral.mem {w : List Char} (h : IsNumeral w) : ∀ x ∈ w, x.isAlphanum = true :=
  fun x hx => isAlphanum_iff.2 (.inr (h.2 x hx))

lemma IsSign.mem {w : List Char} (h : IsSign w) :
    ∀ x ∈ w, ¬ x.isAlphanum = true ∧ ¬ Text.isBlank x = true := by
  have hs : ∀ v ∈ signs.map (fun x => x.1.toList),
      v.all (fun x => !x.isAlphanum && !Text.isBlank x) = true := by decide
  simpa using hs w h

end Characters

/-! ### The first character decides -/

section First

variable {c : Char} {cs : List Char}

lemma isLexeme_of_isAlpha (hc : c.isAlpha = true) :
    IsLexeme (c :: cs) ↔ ∀ x ∈ cs, x.isAlphanum = true := by
  constructor
  · rintro (h | h | h)
    · exact h.2
    · exact absurd (h.2 c (by simp)) (not_isDigit_of_isAlpha hc)
    · exact absurd (isAlphanum_iff.2 (.inl hc)) (h.mem c (by simp)).1
  · exact fun h => .inl ⟨hc, h⟩

lemma isLexeme_of_isDigit (hc : c.isDigit = true) :
    IsLexeme (c :: cs) ↔ ∀ x ∈ cs, x.isDigit = true := by
  constructor
  · rintro (h | h | h)
    · exact absurd hc (not_isDigit_of_isAlpha h.1)
    · exact fun x hx => h.2 x (by simp [hx])
    · exact absurd (isAlphanum_iff.2 (.inr hc)) (h.mem c (by simp)).1
  · exact fun h => .inr (.inl ⟨by simp, by simpa [hc] using h⟩)

lemma isLexeme_of_not_isAlphanum (hc : ¬ c.isAlphanum = true) :
    IsLexeme (c :: cs) ↔ IsSign (c :: cs) := by
  rw [isAlphanum_iff, not_or] at hc
  constructor
  · rintro (h | h | h)
    · exact absurd h.1 hc.1
    · exact absurd (h.2 c (by simp)) hc.2
    · exact h
  · exact fun h => .inr (.inr h)

lemma IsLexeme.ne_nil {w : List Char} (h : IsLexeme w) : w ≠ [] := by
  rintro rfl
  rcases h with h | h | h
  · exact h
  · exact h.1 rfl
  · exact absurd h (by decide)

lemma IsLexeme.not_isBlank (h : IsLexeme (c :: cs)) : ¬ Text.isBlank c = true := by
  by_cases hc : c.isAlphanum = true
  · exact not_isBlank_of_isAlphanum hc
  · rw [isLexeme_of_not_isAlphanum hc] at h
    exact (h.mem c (by simp)).2

end First

/-! ### Longer and shorter lexemes -/

section Longer

variable {c x : Char} {cs w : List Char}

/-- A lexeme of three characters or more stays one when its last character is taken away. -/
lemma IsLexeme.of_concat (h : IsLexeme (c :: cs ++ [x])) (hcs : cs ≠ []) : IsLexeme (c :: cs) := by
  rw [List.cons_append] at h
  by_cases ha : c.isAlpha = true
  · rw [isLexeme_of_isAlpha ha] at h ⊢
    exact fun y hy => h y (by simp [hy])
  by_cases hd : c.isDigit = true
  · rw [isLexeme_of_isDigit hd] at h ⊢
    exact fun y hy => h y (by simp [hy])
  have hc : ¬ c.isAlphanum = true := by simp [isAlphanum_iff, ha, hd]
  rw [isLexeme_of_not_isAlphanum hc] at h
  have hl : ∀ v ∈ signs.map (fun x => x.1.toList), v.length ≤ 2 := by decide
  have h2 := hl _ h
  have h0 : 0 < cs.length := List.length_pos_iff.2 hcs
  simp only [List.length_cons, List.length_append] at h2
  omega

lemma IsLexeme.of_append {rest : List Char} (h : IsLexeme (c :: cs ++ x :: rest)) :
    IsLexeme (c :: cs ++ [x]) := by
  induction rest using List.reverseRecOn with
  | nil => exact h
  | append_singleton rest y ih =>
    refine ih ?_
    have he : c :: cs ++ x :: (rest ++ [y]) = c :: (cs ++ x :: rest) ++ [y] := by simp
    rw [he] at h
    exact h.of_concat (by simp)

lemma IsLexeme.mem_or_isSign (h : IsLexeme w) : (∀ y ∈ w, y.isAlphanum = true) ∨ IsSign w := by
  rcases h with h | h | h
  · exact .inl h.mem
  · exact .inl h.mem
  · exact .inr h

lemma IsLexeme.not_isBlank_of_mem (h : IsLexeme w) (hc : c ∈ w) : ¬ Text.isBlank c = true := by
  rcases h.mem_or_isSign with h | h
  · exact not_isBlank_of_isAlphanum (h c hc)
  · exact (h.mem c hc).2

/-- What makes a lexeme longer: `=` after `:`, or a letter or digit after letters and digits. -/
lemma IsLexeme.joins (h : IsLexeme (w ++ [c])) (hx : IsLexeme (w ++ [c] ++ [x])) :
    c = ':' ∧ x = '=' ∨ c.isAlphanum = true ∧ x.isAlphanum = true := by
  have hs : ∀ v ∈ signs.map (fun x => x.1.toList), ∀ v' ∈ signs.map (fun x => x.1.toList),
      v <+: v' → v = v' ∨ v = [':'] ∧ v' = [':', '='] := by decide
  rcases hx.mem_or_isSign with hx | hx
  · exact .inr ⟨hx c (by simp), hx x (by simp)⟩
  rcases h.mem_or_isSign with h | h
  · exact absurd (h c (by simp)) (hx.mem c (by simp)).1
  rcases hs _ h _ hx (List.prefix_append _ _) with he | ⟨he, he'⟩
  · simp at he
  · rw [he] at he'
    cases w with
    | nil => simp_all
    | cons a w => simp at he

end Longer

/-! ### Kinds -/

section Kinds

variable {k : Kind} {s : String}

lemma isSign_of_mem (h : (s, k) ∈ signs) : IsSign s.toList := List.mem_map.2 ⟨(s, k), h, rfl⟩

lemma isWord_of_mem (h : (s, k) ∈ reservedWords) : IsWord s.toList := by
  have hw : ∀ x ∈ reservedWords, IsWord x.1.toList := by decide
  exact hw _ h

lemma Spells.isLexeme (h : Spells k s) : IsLexeme s.toList := by
  cases h with
  | reserved h => exact .inl (isWord_of_mem h)
  | identifier h hr => exact .inl h
  | numeral h => exact .inr (.inl h)
  | sign h => exact .inr (.inr (isSign_of_mem h))

lemma Spells.ne_eof (h : Spells k s) : k ≠ .eof := by
  have hr : ∀ x ∈ reservedWords, x.2 ≠ .eof := by decide
  have hs : ∀ x ∈ signs, x.2 ≠ .eof := by decide
  cases h with
  | reserved h => exact hr _ h
  | identifier h hr => simp
  | numeral h => simp
  | sign h => exact hs _ h

lemma Spells.isNumeral (h : Spells .number s) : IsNumeral s.toList := by
  have hr : ∀ x ∈ reservedWords, x.2 ≠ .number := by decide
  have hs : ∀ x ∈ signs, x.2 ≠ .number := by decide
  cases h with
  | reserved h => exact absurd rfl (hr _ h)
  | numeral h => exact h
  | sign h => exact absurd rfl (hs _ h)

lemma ofWord_of_mem (h : (s, k) ∈ reservedWords) : Kind.ofWord s = k := by
  have hr : ∀ x ∈ reservedWords, Kind.ofWord x.1 = x.2 := by decide
  exact hr _ h

lemma ofWord_of_not_mem (h : s ∉ reservedWords.map Prod.fst) : Kind.ofWord s = .identifier := by
  have hk : ∀ j ∈ Kind.keywords, ∀ w, j.spelling? = some w → w ∈ reservedWords.map Prod.fst := by
    have hd : ∀ j ∈ Kind.keywords, j.spelling?.all (· ∈ reservedWords.map Prod.fst) := by decide
    intro j hj w hw
    simpa [hw] using hd j hj
  have hn : Kind.keywords.find? (·.spelling? == some s) = none := by
    refine List.find?_eq_none.2 fun j hj hs => h (hk j hj s ?_)
    simpa using hs
  rw [Kind.ofWord, hn, Option.getD_none]

lemma spells_ofWord (h : IsWord s.toList) : Spells (Kind.ofWord s) s := by
  by_cases hr : s ∈ reservedWords.map Prod.fst
  · obtain ⟨⟨s, k⟩, hm, rfl⟩ := List.mem_map.1 hr
    rw [ofWord_of_mem hm]
    exact .reserved hm
  · rw [ofWord_of_not_mem hr]
    exact .identifier h hr

lemma ofSymbol?_eq_some : Kind.ofSymbol? s = some k ↔ (s, k) ∈ signs := by
  constructor
  · intro h
    have hd : ∀ j ∈ Kind.symbols, j.spelling?.all fun w => (w, j) ∈ signs := by decide
    have hj := hd k (List.mem_of_find?_eq_some h)
    have hs : k.spelling? = some s := by simpa using List.find?_some h
    simpa [hs] using hj
  · intro h
    have hd : ∀ x ∈ signs, Kind.ofSymbol? x.1 = some x.2 := by decide
    exact hd _ h

lemma isSome_ofSymbol? : (Kind.ofSymbol? s).isSome = true ↔ IsSign s.toList := by
  rw [Option.isSome_iff_exists]
  constructor
  · rintro ⟨k, h⟩
    exact isSign_of_mem (ofSymbol?_eq_some.1 h)
  · intro h
    obtain ⟨⟨w, k⟩, hm, hw⟩ := List.mem_map.1 h
    obtain rfl := String.toList_inj.1 hw
    exact ⟨k, ofSymbol?_eq_some.2 hm⟩

lemma IsLexeme.exists_spells (h : IsLexeme s.toList) : ∃ k, Spells k s := by
  rcases h with h | h | h
  · exact ⟨_, spells_ofWord h⟩
  · exact ⟨_, .numeral h⟩
  · obtain ⟨k, hk⟩ := Option.isSome_iff_exists.1 (isSome_ofSymbol?.2 h)
    exact ⟨k, .sign (ofSymbol?_eq_some.1 hk)⟩

end Kinds

end OnePass
