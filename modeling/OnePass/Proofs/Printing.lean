import Mathlib.Data.List.Chain
import OnePass.Proofs.Tiling

/-!
Lexemes that are printed one after the other are scanned as they were, unless two of them that
fuse stand side by side.
-/

namespace OnePass

/-- A lexeme of some kind, and what is printed before it. -/
structure Piece where
  gap : String
  kind : Kind
  lexeme : String

def print : List Piece → String → String
  | [], last => last
  | x :: pieces, last => x.gap ++ x.lexeme ++ print pieces last

/-- The lexeme is scanned as one of its kind when nothing stands around it. -/
def Piece.Alone (x : Piece) : Prop :=
  ∃ p q, tokenize x.lexeme = .ok [⟨x.kind, x.lexeme, p⟩, ⟨.eof, "", q⟩]

/-- Identifiers and reserved words. -/
def Kind.IsWord (k : Kind) : Prop := k = .identifier ∨ k ∈ Kind.keywords

/-- A lexeme of the first kind goes on into one of the second kind that stands right after it. -/
def Kind.Fuses (j k : Kind) : Prop :=
  j.IsWord ∧ (k.IsWord ∨ k = .number) ∨ j = .number ∧ k = .number

instance : DecidablePred Kind.IsWord := fun k =>
  inferInstanceAs (Decidable (k = .identifier ∨ k ∈ Kind.keywords))

instance : DecidableRel Kind.Fuses := fun j k =>
  inferInstanceAs (Decidable (j.IsWord ∧ (k.IsWord ∨ k = .number) ∨ j = .number ∧ k = .number))

/-! ### Lexemes that fuse -/

section Fuses

variable {j k : Kind} {s v w : String} {c : Char} {cs : List Char}

lemma Spells.sort (h : Spells k s) :
    (IsWord s.toList ∧ k.IsWord ∧ k ≠ .number) ∨
      (IsNumeral s.toList ∧ ¬ k.IsWord ∧ k = .number) ∨
      (IsSign s.toList ∧ ¬ k.IsWord ∧ k ≠ .number) := by
  have hr : ∀ x ∈ reservedWords, x.2.IsWord ∧ x.2 ≠ .number := by decide
  have hs : ∀ x ∈ signs, ¬ x.2.IsWord ∧ x.2 ≠ .number := by decide
  cases h with
  | reserved h => exact .inl ⟨isWord_of_mem h, hr _ h⟩
  | identifier h _ => exact .inl ⟨h, by decide, by decide⟩
  | numeral h => exact .inr (.inl ⟨h, by decide, rfl⟩)
  | sign h => exact .inr (.inr ⟨isSign_of_mem h, hs _ h⟩)

lemma Spells.first (h : Spells k s) (hs : s.toList = c :: cs) :
    (c.isAlphanum = true ↔ k.IsWord ∨ k = .number) ∧ (c.isDigit = true ↔ k = .number) := by
  have hk := h.sort
  rw [hs] at hk
  rcases hk with ⟨hw, hk, hn⟩ | ⟨hw, hk, rfl⟩ | ⟨hw, hk, hn⟩
  · have ha := isAlphanum_iff.2 (.inl hw.1)
    simp [ha, hk, hn, not_isDigit_of_isAlpha hw.1]
  · have hd : c.isDigit = true := hw.2 c (by simp)
    simp [isAlphanum_iff, hd]
  · have ha := (hw.mem c (by simp)).1
    have hd : ¬ c.isDigit = true := fun hd => ha (isAlphanum_iff.2 (.inr hd))
    simp [ha, hd, hk, hn]

lemma not_isLexeme_equals : ¬ IsLexeme ('=' :: cs) := by
  have hs : ∀ v ∈ signs.map (fun x => x.1.toList), v.head? ≠ some '=' := by decide
  rw [isLexeme_of_not_isAlphanum (by decide)]
  exact fun h => hs _ h rfl

lemma Spells.isLexeme_concat (hv : Spells j v) (hw : Spells k w) (hc : w.toList = c :: cs) :
    IsLexeme (v.toList ++ [c]) ↔ j.Fuses k := by
  obtain ⟨ha, hd⟩ := hw.first hc
  obtain ⟨d, ds, hv'⟩ := List.exists_cons_of_ne_nil hv.isLexeme.ne_nil
  have hj := hv.sort
  rw [hv'] at hj ⊢
  -- A word, a numeral or a sign; only the first two go on with letters and digits.
  rcases hj with ⟨hw', hj, hn⟩ | ⟨hw', hj, rfl⟩ | ⟨hw', hj, hn⟩
  · rw [List.cons_append, isLexeme_of_isAlpha hw'.1, List.forall_mem_append,
      and_iff_right hw'.2, List.forall_mem_singleton, ha]
    simp [Kind.Fuses, hj, hn]
  · rw [List.cons_append, isLexeme_of_isDigit (hw'.2 d (by simp)), List.forall_mem_append,
      and_iff_right fun x hx => hw'.2 x (by simp [hx]), List.forall_mem_singleton, hd]
    simp [Kind.Fuses, hj]
  · have hf : ¬ j.Fuses k := by simp [Kind.Fuses, hj, hn]
    refine iff_of_false (fun h => ?_) hf
    obtain ⟨u, a, hu⟩ : ∃ u a, d :: ds = u ++ [a] :=
      ⟨_, _, (List.dropLast_concat_getLast (List.cons_ne_nil d ds)).symm⟩
    rw [hu] at h hw'
    -- The one sign that goes on is `:`, and no lexeme starts with the `=` it needs.
    rcases IsLexeme.joins (.inr (.inr hw')) h with ⟨-, rfl⟩ | ⟨hx, -⟩
    · exact not_isLexeme_equals (hc ▸ hw.isLexeme)
    · exact (hw'.mem a (by simp)).1 hx

end Fuses

/-! ### What is printed, as tiles -/

def place (p : Position) : List Piece → List Tile
  | [] => []
  | x :: pieces =>
    ⟨x.gap.toList, x.kind, x.lexeme, p.advance x.gap.toList⟩ ::
      place (p.advance (x.gap.toList ++ x.lexeme.toList)) pieces

variable {p : Position} {pieces : List Piece} {last : String} {tiles : List Tile}

lemma layout_place (p : Position) (pieces : List Piece) (last : String) :
    layout (place p pieces) last.toList = (print pieces last).toList := by
  induction pieces generalizing p with
  | nil => rfl
  | cons x pieces ih => simp [place, print, Tile.text, Tile.lexeme, ih]

lemma map_place (p : Position) (pieces : List Piece) :
    (place p pieces).map (fun x => (x.token.kind, x.token.lexeme)) =
      pieces.map fun x => (x.kind, x.lexeme) := by
  induction pieces generalizing p with
  | nil => rfl
  | cons x pieces ih => simp [place, ih]

/-- The piece can be a token: its lexeme is one of its kind, and no number that is too large. -/
structure Piece.Sound (x : Piece) : Prop where
  blank : AllBlank x.gap.toList
  spells : Spells x.kind x.lexeme
  inRange : x.kind = .number → Text.decimalValue x.lexeme.toList ≤ Text.maxLiteral

lemma Piece.Alone.sound {x : Piece} (h : x.Alone) (hb : AllBlank x.gap.toList) : x.Sound := by
  obtain ⟨q, r, h⟩ := h
  obtain ⟨tiles, gap, -, -, ht, he⟩ := exists_tiled_of_ok ((tokenize_eq _).symm.trans h)
  cases tiles with
  | nil => simp at he
  | cons y tiles =>
    obtain ⟨hy, -⟩ := List.cons.inj he
    have hs := ht.1.spells
    have hr := ht.1.inRange
    rw [Tile.lexeme] at hr
    rw [← hy] at hs hr
    exact ⟨hb, hs, hr⟩

/-- No two neighbours that fuse stand side by side. -/
def Apart (pieces : List Piece) : Prop :=
  pieces.IsChain fun x y => y.gap = "" → ¬ x.kind.Fuses y.kind

lemma head_print {x : Piece} (hx : x.Sound) (h : ∀ y ∈ pieces, y.Sound)
    (hl : AllBlank last.toList) :
    (∀ c ∈ (print pieces last).toList.head?, ¬ IsLexeme (x.lexeme.toList ++ [c])) ↔
      ∀ y ∈ pieces.head?, y.gap = "" → ¬ x.kind.Fuses y.kind := by
  have hb : ∀ c, Text.isBlank c = true → ¬ IsLexeme (x.lexeme.toList ++ [c]) :=
    fun c hc hx => hx.not_isBlank_of_mem (by simp) hc
  cases pieces with
  | nil =>
    refine iff_of_true (fun c hc => hb c (hl c ?_)) (by simp)
    exact List.mem_of_mem_head? hc
  | cons y pieces =>
    obtain ⟨hg, hs, -⟩ := h y (by simp)
    cases he : y.gap.toList with
    | nil =>
      obtain ⟨c, cs, hc⟩ := List.exists_cons_of_ne_nil hs.isLexeme.ne_nil
      have hn : y.gap = "" := String.toList_inj.1 he
      simp [print, hc, hn, hx.spells.isLexeme_concat hs hc]
    | cons g gap =>
      have hn : y.gap ≠ "" := by
        rintro hn
        simp [hn] at he
      have hgb : Text.isBlank g = true := hg g (by simp [he])
      simp [print, he, hn, hb g hgb]

/-- **Pieces that stand apart** are tiles where they are printed. -/
lemma tiled_place (h : ∀ x ∈ pieces, x.Sound) (hl : AllBlank last.toList) (ha : Apart pieces) :
    Tiled p (place p pieces) last.toList := by
  induction pieces generalizing p with
  | nil => trivial
  | cons x pieces ih =>
    rw [List.forall_mem_cons] at h
    rw [Apart, List.isChain_cons] at ha
    refine ⟨⟨h.1.blank, h.1.spells, h.1.inRange, rfl, ?_⟩, ih h.2 ha.2⟩
    rw [layout_place]
    exact (head_print h.1 h.2 hl).2 ha.1

lemma gap_eq {g g' w w' rest rest' : List Char} (hg : AllBlank g) (hg' : AllBlank g')
    (hw : IsLexeme w) (hw' : IsLexeme w') (he : g ++ (w ++ rest) = g' ++ (w' ++ rest')) :
    g = g' ∧ w ++ rest = w' ++ rest' := by
  have ht : ∀ (g w rest : List Char), AllBlank g → IsLexeme w →
      (g ++ (w ++ rest)).takeWhile Text.isBlank = g := by
    intro g w rest hg hw
    obtain ⟨c, cs, rfl⟩ := List.exists_cons_of_ne_nil hw.ne_nil
    rw [List.takeWhile_append_of_pos hg]
    simp [hw.not_isBlank]
  have hgg : g = g' := by rw [← ht g w rest hg hw, he, ht g' w' rest' hg' hw']
  subst hgg
  exact ⟨rfl, List.append_cancel_left he⟩

/-- **Tiles with the lexemes of the pieces** lie where the pieces are printed, and so these stand
apart. -/
lemma apart_of_tiled (h : ∀ x ∈ pieces, x.Sound) (hl : AllBlank last.toList) {rest : List Char}
    (ht : Tiled p tiles rest) (he : layout tiles rest = (print pieces last).toList)
    (hm : tiles.map (fun x => (x.token.kind, x.token.lexeme)) =
      pieces.map fun x => (x.kind, x.lexeme)) : Apart pieces := by
  induction pieces generalizing p tiles with
  | nil => exact .nil
  | cons x pieces ih =>
    obtain ⟨y, tiles, rfl, hy, hm⟩ := List.map_eq_cons_iff.1 hm
    obtain ⟨hk, hw⟩ := Prod.mk.inj hy
    rw [List.forall_mem_cons] at h
    obtain ⟨hf, ht⟩ := ht
    have hlex : y.lexeme = x.lexeme.toList := by rw [Tile.lexeme, hw]
    rw [layout_cons, Tile.text, hlex, print, String.toList_append, String.toList_append,
      List.append_assoc, List.append_assoc] at he
    -- Both texts start with blanks and the same lexeme, so the blanks are the same.
    obtain ⟨-, hrest⟩ := gap_eq hf.blank h.1.blank h.1.spells.isLexeme h.1.spells.isLexeme he
    have hrest' := List.append_cancel_left hrest
    rw [Apart, List.isChain_cons]
    refine ⟨(head_print h.1 h.2 hl).1 ?_, ih h.2 ht hrest' hm⟩
    rw [← hrest', ← hlex]
    exact hf.ends

/-- The kinds and lexemes of the tokens before the last one, which is at the end of the text. -/
def ScansAs (source : String) (xs : List (Kind × String)) : Prop :=
  ∃ ts e, tokenize source = .ok (ts ++ [e]) ∧ ts.map (fun t => (t.kind, t.lexeme)) = xs ∧
    e.kind = .eof ∧ e.lexeme = ""

lemma scansAs_print (h : ∀ x ∈ pieces, x.Sound) (hl : AllBlank last.toList) (ha : Apart pieces) :
    ScansAs (print pieces last) (pieces.map fun x => (x.kind, x.lexeme)) := by
  have ht := (tiled_place (p := .start) h hl ha).scanFrom_blank hl
  rw [layout_place, ← tokenize_eq] at ht
  exact ⟨_, _, ht, by rw [List.map_map]; exact map_place .start pieces, rfl, rfl⟩

/-- **Scanning undoes printing** just when no two lexemes that fuse are printed side by side. -/
theorem tokenize_print_iff (pieces : List Piece) (last : String)
    (halone : ∀ x ∈ pieces, x.Alone) (hgap : ∀ x ∈ pieces, AllBlank x.gap.toList)
    (hlast : AllBlank last.toList) :
    ScansAs (print pieces last) (pieces.map fun x => (x.kind, x.lexeme)) ↔ Apart pieces := by
  have h : ∀ x ∈ pieces, x.Sound := fun x hx => (halone x hx).sound (hgap x hx)
  constructor
  · rintro ⟨ts, e, hs, hm, -⟩
    obtain ⟨tiles, rest, he, -, ht, hts⟩ := exists_tiled_of_ok ((tokenize_eq _).symm.trans hs)
    obtain ⟨rfl, -⟩ := List.append_inj' hts rfl
    rw [List.map_map] at hm
    exact apart_of_tiled h hlast ht he.symm hm
  · exact scansAs_print h hlast

/-- A number before a word and `:` before `:=`, side by side. -/
def touching : List Piece :=
  [⟨"\t", .number, "7"⟩, ⟨"", .doKw, "do"⟩, ⟨" ", .identifier, "x1"⟩, ⟨"", .colon, ":"⟩,
    ⟨"", .assign, ":="⟩, ⟨"", .number, "0"⟩]

theorem tokenize_print_iff_touching :
    (∀ x ∈ touching, x.Alone) ∧ (∀ x ∈ touching, AllBlank x.gap.toList) ∧
      AllBlank "\n".toList ∧ print touching "\n" = "\t7do x1::=0\n" ∧
      ScansAs (print touching "\n") (touching.map fun x => (x.kind, x.lexeme)) := by
  have ha : ∀ x ∈ touching, x.Alone := by
    simp only [touching, List.forall_mem_cons, List.not_mem_nil, false_imp_iff, implies_true,
      and_true]
    exact ⟨⟨_, _, rfl⟩, ⟨_, _, rfl⟩, ⟨_, _, rfl⟩, ⟨_, _, rfl⟩, ⟨_, _, rfl⟩, ⟨_, _, rfl⟩⟩
  have hg : ∀ x ∈ touching, AllBlank x.gap.toList := by decide
  have hl : AllBlank "\n".toList := by decide
  refine ⟨ha, hg, hl, by decide, (tokenize_print_iff touching "\n" ha hg hl).2 ?_⟩
  unfold Apart
  decide

end OnePass
