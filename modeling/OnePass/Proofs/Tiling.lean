import Mathlib.Algebra.Group.Nat.Defs
import Mathlib.Data.List.TakeWhile
import OnePass.Proofs.Scanning

/-!
The tokens of a text tile it: the text is its lexemes with white space between them, each lexeme
is as long as it can be, and each token has the place of its lexeme.
-/

namespace OnePass

/-- A token and the white space before it. -/
structure Tile where
  gap : List Char
  token : Token

namespace Tile

def lexeme (x : Tile) : List Char := x.token.lexeme.toList

def text (x : Tile) : List Char := x.gap ++ x.lexeme

end Tile

/-- The text of some tiles, and what comes after it. -/
def layout (tiles : List Tile) (rest : List Char) : List Char := tiles.flatMap Tile.text ++ rest

variable {p : Position} {x : Tile} {tiles : List Tile} {text rest more gap : List Char} {f : Fault}

@[simp] lemma layout_nil (rest : List Char) : layout [] rest = rest := rfl

@[simp] lemma layout_cons (x : Tile) (tiles : List Tile) (rest : List Char) :
    layout (x :: tiles) rest = x.text ++ layout tiles rest := by
  simp [layout]

lemma layout_append (tiles : List Tile) (rest more : List Char) :
    layout tiles (rest ++ more) = layout tiles rest ++ more := by
  simp [layout]

/-! ### One tile -/

/-- The tile has its place at `p`, before `rest`. -/
structure Tile.Fits (p : Position) (x : Tile) (rest : List Char) : Prop where
  blank : AllBlank x.gap
  spells : Spells x.token.kind x.token.lexeme
  inRange : x.token.kind = .number → Text.decimalValue x.lexeme ≤ Text.maxLiteral
  position : x.token.position = p.advance x.gap
  ends : ∀ c ∈ rest.head?, ¬ IsLexeme (x.lexeme ++ [c])

lemma Tile.Fits.of_append (h : x.Fits p (rest ++ more)) : x.Fits p rest := by
  refine ⟨h.blank, h.spells, h.inRange, h.position, fun c hc => h.ends c ?_⟩
  cases rest with
  | nil => simp at hc
  | cons a rest => exact hc

lemma Tile.Fits.scanFrom (h : x.Fits p rest) :
    scanFrom p (x.text ++ rest) = (scanFrom (p.advance x.text) rest).map (x.token :: ·) := by
  have hl : IsLexeme x.token.lexeme.toList := h.spells.isLexeme
  obtain ⟨c, cs, hw⟩ := List.exists_cons_of_ne_nil hl.ne_nil
  have hx : x.lexeme = c :: cs := hw
  have hr := h.ends
  rw [hw] at hl
  rw [hx] at hr
  have hc : (Lexeme.spelled (p.advance x.gap) c cs).close = .ok x.token := by
    rw [Lexeme.close_of_spells h.spells hw h.inRange, ← h.position]
  rw [Tile.text, List.append_assoc, scanFrom_gap p h.blank, hx,
    scanFrom_lexeme _ hl.not_isBlank (.inr hl) hr, hc, ok_bind, Position.advance_append]

/-- What the scanner stops at: a character that begins no lexeme, or too large a number. -/
inductive Fails (p : Position) : Fault → List Char → Prop
  | stray {c : Char} {rest : List Char} (hb : ¬ Text.isBlank c = true) (hc : ¬ IsLexeme [c])
      (hr : ∀ x ∈ rest.head?, ¬ IsLexeme [c, x]) : Fails p (.strayCharacter p c) (c :: rest)
  | numeral {digits rest : List Char} (h : IsNumeral digits)
      (hr : ∀ x ∈ rest.head?, ¬ x.isDigit = true)
      (hv : Text.maxLiteral < Text.decimalValue digits) :
      Fails p (.literalTooLarge p (String.ofList digits)) (digits ++ rest)

lemma Fails.scanFrom (h : Fails p f text) : scanFrom p text = .error f := by
  cases h with
  | @stray c rest hb hc hr =>
    have hr' : ∀ x ∈ rest.head?, ¬ IsLexeme (c :: [] ++ [x]) := hr
    have hs := scanFrom_lexeme p hb (.inl rfl) hr'
    rw [Lexeme.close_of_not_isLexeme hc] at hs
    exact hs
  | @numeral digits rest h hr hv =>
    obtain ⟨c, cs, rfl⟩ := List.exists_cons_of_ne_nil h.1
    have hl : IsLexeme (c :: cs) := .inr (.inl h)
    have hd : c.isDigit = true := h.2 c (by simp)
    have hr' : ∀ x ∈ rest.head?, ¬ IsLexeme (c :: cs ++ [x]) := by
      intro x hx hlx
      rw [List.cons_append, isLexeme_of_isDigit hd] at hlx
      exact hr x hx (hlx x (by simp))
    rw [scanFrom_lexeme p hl.not_isBlank (.inr hl) hr', Lexeme.close_of_isNumeral h hv, error_bind]

lemma exists_longest (c : Char) (cs rest : List Char) (h : cs = [] ∨ IsLexeme (c :: cs)) :
    ∃ ds more, cs ++ rest = ds ++ more ∧ (ds = [] ∨ IsLexeme (c :: ds)) ∧
      ∀ x ∈ more.head?, ¬ IsLexeme (c :: ds ++ [x]) := by
  induction rest generalizing cs with
  | nil => exact ⟨cs, [], rfl, h, by simp⟩
  | cons x rest ih =>
    by_cases hx : IsLexeme (c :: cs ++ [x])
    · obtain ⟨ds, more, he, hd, hm⟩ := ih (cs ++ [x]) (.inr hx)
      exact ⟨ds, more, by rw [← he]; simp, hd, hm⟩
    · refine ⟨cs, x :: rest, rfl, h, fun y hy => ?_⟩
      obtain rfl : x = y := by simpa using hy
      exact hx

lemma exists_fits (p : Position) {w : List Char} (hg : AllBlank gap) (hl : IsLexeme w)
    (hr : ∀ c ∈ rest.head?, ¬ IsLexeme (w ++ [c])) :
    (∃ x, Tile.text x = gap ++ w ∧ x.Fits p rest) ∨ ∃ f, Fails (p.advance gap) f (w ++ rest) := by
  have hw : (String.ofList w).toList = w := String.toList_ofList
  obtain ⟨k, hk⟩ := IsLexeme.exists_spells (s := String.ofList w) (hw.symm ▸ hl)
  by_cases hv : k = .number ∧ Text.maxLiteral < Text.decimalValue w
  · obtain ⟨rfl, hv⟩ := hv
    have hn : IsNumeral w := hw ▸ hk.isNumeral
    refine .inr ⟨_, .numeral hn (fun c hc hd => hr c hc (.inr (.inl ⟨by simp, ?_⟩))) hv⟩
    simpa [or_imp, forall_and, hd] using hn.2
  · have hv' : k = .number → Text.decimalValue w ≤ Text.maxLiteral := by
      intro hk
      by_contra hlt
      exact hv ⟨hk, by omega⟩
    refine .inl ⟨⟨gap, k, String.ofList w, p.advance gap⟩, by simp [Tile.text, Tile.lexeme], hg, hk,
      ?_, rfl, ?_⟩
    · simpa [Tile.lexeme] using hv'
    · simpa [Tile.lexeme] using hr

/-- **One step of the scanner**: at each place there is white space to the end, or a tile, or a
fault after some white space. -/
theorem exists_tile (p : Position) (text : List Char) :
    AllBlank text ∨ (∃ x rest, text = Tile.text x ++ rest ∧ x.Fits p rest) ∨
      ∃ gap rest f, text = gap ++ rest ∧ AllBlank gap ∧ Fails (p.advance gap) f rest := by
  obtain ⟨gap, rest, ht, hg, hr⟩ : ∃ gap rest, text = gap ++ rest ∧ AllBlank gap ∧
      ∀ c ∈ rest.head?, ¬ Text.isBlank c = true :=
    ⟨text.takeWhile Text.isBlank, text.dropWhile Text.isBlank,
      List.takeWhile_append_dropWhile.symm, fun c hc => List.mem_takeWhile_imp hc, fun c hc => by
        have hn := List.head?_dropWhile_not Text.isBlank text
        rw [Option.mem_def.1 hc] at hn
        simpa using hn⟩
  subst ht
  cases rest with
  | nil => exact .inl (by simpa using hg)
  | cons c rest =>
    have hb : ¬ Text.isBlank c = true := hr c rfl
    -- The longest lexeme that starts at `c`, or `c` alone where none does.
    obtain ⟨cs, more, he, ho, hm⟩ := exists_longest c [] rest (.inl rfl)
    obtain rfl : rest = cs ++ more := he
    by_cases hl : IsLexeme (c :: cs)
    · rcases exists_fits p hg hl hm with ⟨x, hx, hf⟩ | ⟨f, hf⟩
      · exact .inr (.inl ⟨x, more, by simp [hx], hf⟩)
      · exact .inr (.inr ⟨gap, _, f, rfl, hg, hf⟩)
    · obtain rfl : cs = [] := ho.resolve_right hl
      exact .inr (.inr ⟨gap, _, _, rfl, hg, .stray hb hl hm⟩)

/-! ### Tiles in a row -/

/-- Each tile has its place, the first at `p` and the last before `rest`. -/
def Tiled (p : Position) : List Tile → List Char → Prop
  | [], _ => True
  | x :: tiles, rest => x.Fits p (layout tiles rest) ∧ Tiled (p.advance x.text) tiles rest

lemma Tiled.of_append (h : Tiled p tiles (rest ++ more)) : Tiled p tiles rest := by
  induction tiles generalizing p with
  | nil => trivial
  | cons x tiles ih =>
    rw [Tiled, layout_append] at h
    exact ⟨h.1.of_append, ih h.2⟩

/-- **Tiles become tokens**, whatever comes after them. -/
theorem Tiled.scanFrom (h : Tiled p tiles rest) :
    scanFrom p (layout tiles rest) =
      (scanFrom (p.advance (layout tiles [])) rest).map (tiles.map Tile.token ++ ·) := by
  induction tiles generalizing p with
  | nil => cases hs : OnePass.scanFrom p rest <;> simp [hs, Except.map]
  | cons x tiles ih =>
    rw [layout_cons, h.1.scanFrom, ih h.2, layout_cons, Position.advance_append]
    cases OnePass.scanFrom _ rest <;> simp [Except.map]

lemma Tiled.scanFrom_gap (h : Tiled p tiles (gap ++ rest)) (hg : AllBlank gap) :
    OnePass.scanFrom p (layout tiles (gap ++ rest)) =
      (OnePass.scanFrom (p.advance (layout tiles gap)) rest).map (tiles.map Tile.token ++ ·) := by
  rw [h.scanFrom, OnePass.scanFrom_gap _ hg, ← Position.advance_append, ← layout_append,
    List.nil_append]

lemma Tiled.scanFrom_blank (h : Tiled p tiles rest) (hr : AllBlank rest) :
    OnePass.scanFrom p (layout tiles rest) =
      .ok (tiles.map Tile.token ++ [⟨.eof, "", p.advance (layout tiles rest)⟩]) := by
  rw [← List.append_nil rest] at h
  have hs := h.scanFrom_gap hr
  rwa [List.append_nil, scanFrom_nil] at hs

/-- **Every text is tiled** up to its end or up to a fault. -/
theorem exists_tiled (p : Position) (text : List Char) :
    ∃ tiles gap rest, text = layout tiles (gap ++ rest) ∧ Tiled p tiles (gap ++ rest) ∧
      AllBlank gap ∧ (rest = [] ∨ ∃ f, Fails (p.advance (layout tiles gap)) f rest) := by
  -- The induction is on the length: what is left after a tile is shorter.
  induction hn : text.length using Nat.strong_induction_on generalizing p text with
  | _ n ih =>
    rcases exists_tile p text with hb | ⟨x, rest, rfl, hf⟩ | ⟨gap, rest, f, rfl, hg, hf⟩
    · exact ⟨[], text, [], by simp, trivial, hb, .inl rfl⟩
    · have hl : 0 < x.lexeme.length := List.length_pos_iff.2 hf.spells.isLexeme.ne_nil
      have hlt : rest.length < n := by
        rw [← hn, List.length_append, Tile.text, List.length_append]
        omega
      obtain ⟨tiles, gap, rest, rfl, ht, hg, hr⟩ := ih _ hlt (p.advance x.text) rest rfl
      exact ⟨x :: tiles, gap, rest, by simp, ⟨hf, ht⟩, hg, by simpa using hr⟩
    · exact ⟨[], gap, rest, rfl, trivial, hg, .inr ⟨f, by simpa using hf⟩⟩

lemma tiled_iff : Tiled p tiles rest ↔ ∀ before x after, tiles = before ++ x :: after →
    x.Fits (p.advance (layout before [])) (layout after rest) := by
  constructor
  · intro h before x after he
    induction before generalizing p tiles with
    | nil =>
      subst he
      exact h.1
    | cons y before ih =>
      subst he
      rw [layout_cons, Position.advance_append]
      exact ih h.2 rfl
  · intro h
    induction tiles generalizing p with
    | nil => trivial
    | cons y tiles ih =>
      refine ⟨h [] y tiles rfl, ih fun before x after he => ?_⟩
      have hx := h (y :: before) x after (by rw [he]; rfl)
      rwa [layout_cons, Position.advance_append] at hx

/-! ### Places -/

namespace Position

/-- The place after a text: lines are counted by their line feeds, columns from the last one. -/
def after (text : List Char) : Position :=
  ⟨1 + text.count '\n', 1 + (text.reverse.takeWhile (· ≠ '\n')).length⟩

/-- Earlier in the text: on an earlier line, or in an earlier column of the same line. -/
def Before (p q : Position) : Prop := p.line < q.line ∨ p.line = q.line ∧ p.column < q.column

lemma advance_start (text : List Char) : start.advance text = after text := by
  induction text using List.reverseRecOn with
  | nil => rfl
  | append_singleton text c ih =>
    rw [advance_append, ih, advance_cons, advance_nil, next]
    by_cases hc : c = '\n'
    · simp [after, hc]
      omega
    · simp [after, hc]
      omega

lemma Before.trans {p q r : Position} (h : p.Before q) (h' : q.Before r) : p.Before r := by
  unfold Before at *
  omega

lemma before_next (p : Position) (c : Char) : p.Before (p.next c) := by
  unfold Before next
  split <;> simp

lemma before_advance (p : Position) {text : List Char} (h : text ≠ []) :
    p.Before (p.advance text) := by
  induction text generalizing p with
  | nil => exact absurd rfl h
  | cons c text ih =>
    by_cases ht : text = []
    · subst ht
      exact before_next p c
    · exact (before_next p c).trans (ih _ ht)

end Position

lemma Tiled.pairwise (h : Tiled p tiles rest) :
    let ts : List Token := tiles.map Tile.token ++ [⟨.eof, "", p.advance (layout tiles rest)⟩]
    (∀ t ∈ ts, t.position = p ∨ p.Before t.position) ∧
      ts.Pairwise fun s t => s.position.Before t.position := by
  induction tiles generalizing p with
  | nil =>
    have he : p.advance rest = p ∨ p.Before (p.advance rest) := by
      by_cases hr : rest = []
      · exact .inl (by rw [hr]; rfl)
      · exact .inr (p.before_advance hr)
    simpa using he
  | cons x tiles ih =>
    obtain ⟨hx, h⟩ := h
    have hl : x.lexeme ≠ [] := hx.spells.isLexeme.ne_nil
    have hp : x.token.position = p ∨ p.Before x.token.position := by
      rw [hx.position]
      by_cases hg : x.gap = []
      · exact .inl (by rw [hg]; rfl)
      · exact .inr (p.before_advance hg)
    -- A lexeme is not empty, so whatever follows it stands strictly later.
    have hq : x.token.position.Before (p.advance x.text) := by
      rw [hx.position, Tile.text, Position.advance_append]
      exact Position.before_advance _ hl
    obtain ⟨h₁, h₂⟩ := ih h
    simp only [layout_cons, Position.advance_append, List.map_cons, List.cons_append,
      List.forall_mem_cons, List.pairwise_cons]
    have hx' : ∀ t ∈ tiles.map Tile.token ++
        [⟨.eof, "", (p.advance x.text).advance (layout tiles rest)⟩],
        x.token.position.Before t.position := by
      intro t ht
      rcases h₁ t ht with he | hb
      · rwa [he]
      · exact hq.trans hb
    refine ⟨⟨hp, fun t ht => .inr ?_⟩, hx', h₂⟩
    rcases hp with hp | hp
    · exact hp ▸ hx' t ht
    · exact hp.trans (hx' t ht)

/-! ### The tokens of a text -/

/-- `w` is the longest lexeme that the text begins with. -/
def Longest (w text : List Char) : Prop :=
  IsLexeme w ∧ w <+: text ∧ ∀ v, IsLexeme v → v <+: text → v.length ≤ w.length

lemma longest_iff {w rest : List Char} :
    Longest w (w ++ rest) ↔ IsLexeme w ∧ ∀ c ∈ rest.head?, ¬ IsLexeme (w ++ [c]) := by
  constructor
  · rintro ⟨hw, -, hl⟩
    refine ⟨hw, fun c hc hx => ?_⟩
    cases rest with
    | nil => simp at hc
    | cons a rest =>
      obtain rfl : a = c := by simpa using hc
      have hle : (w ++ [a]).length ≤ w.length := hl _ hx ⟨rest, by simp⟩
      rw [List.length_append, List.length_singleton] at hle
      omega
  · rintro ⟨hw, hr⟩
    refine ⟨hw, List.prefix_append w rest, fun v hv hp => ?_⟩
    by_contra hlt
    -- A longer lexeme goes on with the next character, and with that alone it is one already.
    obtain ⟨c, cs, rfl⟩ := List.exists_cons_of_ne_nil hw.ne_nil
    obtain ⟨u, rfl⟩ := List.prefix_of_prefix_length_le (List.prefix_append _ rest) hp (by omega)
    obtain ⟨u', hu⟩ := (List.prefix_append_right_inj _).1 hp
    cases u with
    | nil => simp at hlt
    | cons x u =>
      subst hu
      exact hr x rfl hv.of_append

/-- The text is made of the tiles and the white space after them. Each lexeme is the longest one at
its place, and its token has the kind and the place of the lexeme. -/
structure Tiling (text : List Char) (tiles : List Tile) (last : List Char) : Prop where
  text_eq : text = layout tiles last
  gap_blank : ∀ x ∈ tiles, AllBlank x.gap
  last_blank : AllBlank last
  longest : ∀ before x after, tiles = before ++ x :: after →
    x.lexeme ≠ [] ∧ Longest x.lexeme (x.lexeme ++ layout after last)
  kind : ∀ x ∈ tiles, Spells x.token.kind x.token.lexeme
  position : ∀ before x after, tiles = before ++ x :: after →
    x.token.position = .after (layout before x.gap)

/-- The numbers among the tokens fit into 64 bits with a sign. -/
def Bounded (ts : List Token) : Prop :=
  ∀ t ∈ ts, t.kind = .number → Text.decimalValue t.lexeme.toList ≤ 2 ^ 63 - 1

lemma tiling_iff {last : List Char} :
    Tiling text tiles last ∧ Bounded (tiles.map Tile.token) ↔
      text = layout tiles last ∧ AllBlank last ∧ Tiled .start tiles last := by
  -- The one side advances tile by tile, the other reads the position off the whole text before.
  have hp : ∀ (before : List Tile) (x : Tile),
      (Position.start.advance (layout before [])).advance x.gap = .after (layout before x.gap) := by
    intro before x
    rw [← Position.advance_start, ← Position.advance_append, ← layout_append, List.nil_append]
  constructor
  · rintro ⟨h, hb⟩
    refine ⟨h.text_eq, h.last_blank, tiled_iff.2 fun before x after he => ?_⟩
    have hm : x ∈ tiles := by simp [he]
    exact ⟨h.gap_blank x hm, h.kind x hm, hb x.token (List.mem_map_of_mem hm),
      (h.position before x after he).trans (hp before x).symm,
      (longest_iff.1 (h.longest before x after he).2).2⟩
  · rintro ⟨rfl, hl, h⟩
    rw [tiled_iff] at h
    have hm : ∀ x ∈ tiles, ∃ before after, tiles = before ++ x :: after :=
      fun x hx => List.append_of_mem hx
    refine ⟨⟨rfl, fun x hx => ?_, hl, fun before x after he => ?_, fun x hx => ?_,
      fun before x after he => ?_⟩, ?_⟩
    · obtain ⟨before, after, he⟩ := hm x hx
      exact (h before x after he).blank
    · have hf := h before x after he
      exact ⟨hf.spells.isLexeme.ne_nil, longest_iff.2 ⟨hf.spells.isLexeme, hf.ends⟩⟩
    · obtain ⟨before, after, he⟩ := hm x hx
      exact (h before x after he).spells
    · exact (h before x after he).position.trans (hp before x)
    · intro t ht
      obtain ⟨x, hx, rfl⟩ := List.mem_map.1 ht
      obtain ⟨before, after, he⟩ := hm x hx
      exact (h before x after he).inRange

lemma exists_tiled_of_ok {ts : List Token} (h : scanFrom p text = .ok ts) :
    ∃ tiles last, text = layout tiles last ∧ AllBlank last ∧ Tiled p tiles last ∧
      ts = tiles.map Tile.token ++ [⟨.eof, "", p.advance text⟩] := by
  obtain ⟨tiles, gap, rest, rfl, ht, hg, rfl | ⟨f, hf⟩⟩ := exists_tiled p text
  · rw [List.append_nil] at h ht
    rw [ht.scanFrom_blank hg] at h
    exact ⟨tiles, gap, by rw [List.append_nil], hg, ht, by rw [List.append_nil]; cases h; rfl⟩
  · rw [ht.scanFrom_gap hg, hf.scanFrom] at h
    cases h

lemma nodup_of_tokenize {source : String} {ts : List Token} (h : tokenize source = .ok ts) :
    ts.Nodup := by
  obtain ⟨tiles, last, he, -, ht, rfl⟩ := exists_tiled_of_ok ((tokenize_eq _).symm.trans h)
  rw [he]
  refine ht.pairwise.2.imp fun {a b} hab => ?_
  rintro rfl
  unfold Position.Before at hab
  omega

/-- **Scanning is a tiling** of the text by its lexemes, each as long as it can be, with their
places. -/
theorem tokenize_ok_iff (source : String) (ts : List Token) :
    (tokenize source = .ok ts ↔ ∃ tiles last, Tiling source.toList tiles last ∧
      Bounded (tiles.map Tile.token) ∧
      ts = tiles.map Tile.token ++ [⟨.eof, "", .after source.toList⟩]) ∧
    (tokenize source = .ok ts → (∀ t ∈ ts.dropLast, t.kind ≠ .eof) ∧
      ts.Pairwise fun s t => s.position.Before t.position) := by
  rw [tokenize_eq]
  constructor
  · constructor
    · intro h
      obtain ⟨tiles, last, he, hl, ht, rfl⟩ := exists_tiled_of_ok h
      obtain ⟨hT, hB⟩ := tiling_iff.2 ⟨he, hl, ht⟩
      exact ⟨tiles, last, hT, hB, by rw [Position.advance_start]⟩
    · rintro ⟨tiles, last, hT, hB, rfl⟩
      obtain ⟨he, hl, ht⟩ := tiling_iff.1 ⟨hT, hB⟩
      rw [he, ht.scanFrom_blank hl, Position.advance_start]
  · intro h
    obtain ⟨tiles, last, he, -, ht, rfl⟩ := exists_tiled_of_ok h
    refine ⟨fun t htm => ?_, by rw [he]; exact ht.pairwise.2⟩
    rw [List.dropLast_concat] at htm
    obtain ⟨x, hx, rfl⟩ := List.mem_map.1 htm
    obtain ⟨before, after, hb⟩ := List.append_of_mem hx
    exact (tiled_iff.1 ht before x after hb).spells.ne_eof

end OnePass
