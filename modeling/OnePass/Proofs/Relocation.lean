import OnePass.Proofs.LexicalErrors

/-!
White space keeps texts apart. What is scanned before it does not depend on what comes after it,
and what comes after it is scanned as if it stood alone, but for the places of its tokens.
-/

namespace OnePass

variable {p : Position} {tiles : List Tile} {before text rest more : List Char} {c : Char}
  {f : Fault}

/-! ### Places in a longer text -/

namespace Position

/-- Where the place `p` of a text is when the text stands after `before`. All lines count on, and
columns count on in the line that `before` ends in. -/
def relocate (before : List Char) (p : Position) : Position where
  line := before.count '\n' + p.line
  column :=
    if p.line = 1 then (before.reverse.takeWhile (· ≠ '\n')).length + p.column else p.column

lemma after_append (before text : List Char) :
    after (before ++ text) = (after text).relocate before := by
  unfold after relocate
  by_cases ht : '\n' ∈ text
  · -- The last line of the text is a line of its own.
    have hn : text.count '\n' ≠ 0 := by simpa [List.count_eq_zero] using ht
    have hl : (text.reverse.takeWhile (· ≠ '\n')).length ≠ text.reverse.length := by
      intro hl
      have he := (List.takeWhile_prefix _).eq_of_length hl
      have hm := List.mem_takeWhile_imp (he ▸ List.mem_reverse.2 ht)
      simp at hm
    rw [List.reverse_append, List.takeWhile_append, if_neg hl, List.count_append]
    simp [hn]
    omega
  · have hc : text.count '\n' = 0 := List.count_eq_zero.2 ht
    have hr : ∀ c ∈ text.reverse, decide (c ≠ '\n') = true := by
      intro c hc
      simp only [decide_eq_true_eq]
      rintro rfl
      exact ht (List.mem_reverse.1 hc)
    rw [List.reverse_append, List.takeWhile_append_of_pos hr, List.takeWhile_eq_self_iff.2 hr,
      List.count_append, hc]
    simp
    omega

lemma advance_after (before text : List Char) :
    (after before).advance text = after (before ++ text) := by
  rw [← advance_start, ← advance_append, advance_start]

end Position

def Token.relocate (before : List Char) (t : Token) : Token :=
  { t with position := t.position.relocate before }

def Fault.relocate (before : List Char) : Fault → Fault
  | strayCharacter p c => strayCharacter (p.relocate before) c
  | literalTooLarge p digits => literalTooLarge (p.relocate before) digits
  | unexpected wanted found => unexpected wanted (found.relocate before)
  | redeclared name => redeclared (name.relocate before)
  | undeclared name => undeclared (name.relocate before)

/-! ### Scanning a text further down -/

def Tile.relocate (before : List Char) (x : Tile) : Tile :=
  { x with token := x.token.relocate before }

lemma layout_relocate (before : List Char) (tiles : List Tile) (rest : List Char) :
    layout (tiles.map (Tile.relocate before)) rest = layout tiles rest := by
  induction tiles with
  | nil => rfl
  | cons x tiles ih =>
    rw [List.map_cons, layout_cons, layout_cons, ih]
    rfl

lemma Tiled.relocate (before : List Char) (h : Tiled (.after text) tiles rest) :
    Tiled (.after (before ++ text)) (tiles.map (Tile.relocate before)) rest := by
  induction tiles generalizing text with
  | nil => trivial
  | cons x tiles ih =>
    obtain ⟨hx, h⟩ := h
    rw [Position.advance_after] at h
    have hp : (x.token.position).relocate before = .after (before ++ text ++ x.gap) := by
      rw [hx.position, Position.advance_after, List.append_assoc, ← Position.after_append]
    refine ⟨⟨hx.blank, hx.spells, hx.inRange, ?_, ?_⟩, ?_⟩
    · rw [Position.advance_after]
      exact hp
    · rw [layout_relocate]
      exact hx.ends
    · have ht := ih h
      rw [← List.append_assoc] at ht
      rw [Position.advance_after]
      exact ht

lemma Fails.relocate (before : List Char) (h : Fails (.after text) f rest) :
    Fails (.after (before ++ text)) (f.relocate before) rest := by
  rw [Position.after_append]
  cases h with
  | stray hb hc hr => exact .stray hb hc hr
  | numeral hn hr hv => exact .numeral hn hr hv

/-- **A text further down** has the tokens and the fault that it has alone. -/
theorem scanFrom_relocate (before text : List Char) :
    scanFrom (.after before) text =
      mapBoth (Fault.relocate before) (List.map (Token.relocate before))
        (scanFrom .start text) := by
  obtain ⟨tiles, gap, rest, rfl, ht, hg, hr⟩ := exists_tiled .start text
  have ht' : Tiled (.after before) (tiles.map (Tile.relocate before)) (gap ++ rest) := by
    have h : Tiled (.after []) tiles (gap ++ rest) := ht
    simpa using h.relocate before
  have hp : (Position.after before).advance (layout tiles gap) =
      (Position.after (layout tiles gap)).relocate before := by
    rw [Position.advance_after, Position.after_append]
  rw [← layout_relocate before]
  rcases hr with rfl | ⟨f, hf⟩
  · rw [List.append_nil] at ht ht' ⊢
    rw [ht'.scanFrom_blank hg, layout_relocate, ht.scanFrom_blank hg, hp, Position.advance_start]
    simp [Token.relocate, Tile.relocate]
  · rw [Position.advance_start] at hf
    have hf' := hf.relocate before
    rw [Position.after_append, ← hp] at hf'
    rw [ht'.scanFrom_gap hg, layout_relocate, layout_relocate, hf'.scanFrom, ht.scanFrom_gap hg,
      Position.advance_start, hf.scanFrom]
    rfl

/-! ### White space after a text -/

lemma Tiled.append_blank (h : Tiled p tiles rest) (hw : Text.isBlank c = true) :
    Tiled p tiles (rest ++ c :: more) := by
  refine h.append fun w a _ _ x hx hl => ?_
  obtain rfl : c = x := by simpa using hx
  exact hl.not_isBlank_of_mem (by simp) hw

lemma Fails.append_blank (h : Fails p f text) (hw : Text.isBlank c = true) :
    Fails p f (text ++ c :: more) := by
  cases h with
  | @stray a rest hb ha hr =>
    refine .stray hb ha fun x hx hl => ?_
    cases rest with
    | nil =>
      obtain rfl : c = x := by simpa using hx
      exact hl.not_isBlank_of_mem (by simp) hw
    | cons y rest => exact hr x hx hl
  | @numeral digits rest hn hr hv =>
    rw [List.append_assoc]
    refine .numeral hn (fun x hx hd => ?_) hv
    cases rest with
    | nil =>
      obtain rfl : c = x := by simpa using hx
      exact not_isBlank_of_isAlphanum (isAlphanum_iff.2 (.inr hd)) hw
    | cons y rest => exact hr x hx hd

lemma scanFrom_append_of_error (h : scanFrom p text = .error f) (hw : Text.isBlank c = true) :
    scanFrom p (text ++ c :: more) = .error f := by
  obtain ⟨tiles, gap, rest, rfl, ht, hg, hr⟩ := exists_tiled p text
  rcases hr with rfl | ⟨f', hf⟩
  · rw [List.append_nil] at h ht
    rw [ht.scanFrom_blank hg] at h
    cases h
  · rw [ht.scanFrom_gap hg, hf.scanFrom] at h
    obtain rfl : f' = f := Except.error.inj h
    have ht' : Tiled p tiles (gap ++ (rest ++ c :: more)) := by
      rw [← List.append_assoc]
      exact ht.append_blank hw
    rw [← layout_append, List.append_assoc, ht'.scanFrom_gap hg, (hf.append_blank hw).scanFrom]
    rfl

lemma scanFrom_append_of_ok {ts : List Token} (h : scanFrom p text = .ok ts)
    (hw : Text.isBlank c = true) (more : List Char) :
    ∃ us e, ts = us ++ [e] ∧ e.kind = .eof ∧ scanFrom p (text ++ c :: more) =
      (scanFrom (p.advance (text ++ [c])) more).map (us ++ ·) := by
  obtain ⟨tiles, last, rfl, hl, ht, rfl⟩ := exists_tiled_of_ok h
  refine ⟨_, _, rfl, rfl, ?_⟩
  have hg : AllBlank (last ++ [c]) := by
    simpa [AllBlank, or_imp, forall_and, hw] using hl
  have ht' : Tiled p tiles (last ++ [c] ++ more) := by
    rw [List.append_assoc]
    exact ht.append_blank hw
  calc scanFrom p (layout tiles last ++ c :: more)
      = scanFrom p (layout tiles (last ++ [c] ++ more)) := by
        rw [layout_append, layout_append, List.append_assoc, List.singleton_append]
    _ = (scanFrom (p.advance (layout tiles (last ++ [c]))) more).map (tiles.map Tile.token ++ ·) :=
        ht'.scanFrom_gap hg
    _ = _ := by rw [layout_append]

/-- **Scanning is compositional at white space**: what stands before decides alone whether it can be
scanned; and if it can, then what comes after adds its own tokens or its own fault, at the places
they have in the whole text. -/
theorem tokenize_append_blank (a b : String) (w : Char) (hw : Text.isBlank w = true) :
    (∀ f, tokenize a = .error f → tokenize (a.push w ++ b) = .error f) ∧
    ∀ ts, tokenize a = .ok ts → ∃ us e, ts = us ++ [e] ∧ e.kind = .eof ∧
      tokenize (a.push w ++ b) =
        match tokenize b with
        | .ok vs => .ok (us ++ vs.map (Token.relocate (a.toList ++ [w])))
        | .error f => .error (f.relocate (a.toList ++ [w])) := by
  have htext : (a.push w ++ b).toList = a.toList ++ w :: b.toList := by simp
  simp only [tokenize_eq, htext]
  refine ⟨fun f hf => scanFrom_append_of_error hf hw, fun ts ht => ?_⟩
  obtain ⟨us, e, rfl, he, hs⟩ := scanFrom_append_of_ok ht hw b.toList
  refine ⟨us, e, rfl, he, ?_⟩
  rw [hs, Position.advance_start, scanFrom_relocate]
  cases scanFrom .start b.toList with
  | ok vs => rfl
  | error f => rfl

/-- A `:` is not joined to a `=` across a space, and the `=` is reported where it stands. -/
theorem tokenize_append_blank_colon :
    Text.isBlank ' ' = true ∧
      tokenize "\na:" =
        .ok [⟨.identifier, "a", ⟨2, 1⟩⟩, ⟨.colon, ":", ⟨2, 2⟩⟩, ⟨.eof, "", ⟨2, 3⟩⟩] ∧
      tokenize "=1" = .error (.strayCharacter ⟨1, 1⟩ '=') ∧
      tokenize "\na: =1" = .error (.strayCharacter ⟨2, 4⟩ '=') := by
  have ha : tokenize "\na:" =
      .ok [⟨.identifier, "a", ⟨2, 1⟩⟩, ⟨.colon, ":", ⟨2, 2⟩⟩, ⟨.eof, "", ⟨2, 3⟩⟩] := by decide
  have hb : tokenize "=1" = .error (.strayCharacter ⟨1, 1⟩ '=') := by decide
  obtain ⟨us, e, -, -, h⟩ := (tokenize_append_blank "\na:" "=1" ' ' (by decide)).2 _ ha
  rw [hb] at h
  exact ⟨by decide, ha, hb, h⟩

end OnePass
