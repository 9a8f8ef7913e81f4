import OnePass.Proofs.LexicalErrors
import OnePass.Proofs.Listing
import OnePass.Proofs.Printing
import OnePass.Proofs.Rewording

/-!
Integer literals on their way from the text to the listing. A numeral is scanned as it stands, and
its value bounds what is accepted, not its length; each literal of a program becomes one constant,
with its value; and the constant is written without leading zeros. So a literal can be exchanged for
any other numeral of the same value.
-/

namespace OnePass

/-! ### A numeral alone -/

/-- **A numeral** is one token, unless its value is too large. -/
theorem tokenize_numeral {d : String} (h : IsNumeral d.toList) :
    tokenize d = if placeValue d.toList ≤ 2 ^ 63 - 1 then
        .ok [⟨.number, d, .start⟩, ⟨.eof, "", .after d.toList⟩]
      else .error (.literalTooLarge .start d) := by
  split
  case isTrue hv =>
    have hx : Tiled .start [⟨[], .number, d, .start⟩] [] := by
      refine ⟨⟨by simp [AllBlank], .numeral h, fun _ => ?_, rfl, by simp⟩, trivial⟩
      show Text.decimalValue d.toList ≤ Text.maxLiteral
      rw [decimalValue_eq]
      exact hv
    have hs := hx.scanFrom_blank (by simp [AllBlank])
    rw [Position.advance_start] at hs
    simpa [tokenize_eq, Tile.text, Tile.lexeme] using hs
  case isFalse hv =>
    have hf : Fails .start (.literalTooLarge .start (String.ofList d.toList)) (d.toList ++ []) :=
      .numeral h (by simp) (maxLiteral_lt_iff.2 (by omega))
    have hs := hf.scanFrom
    rwa [List.append_nil, String.ofList_toList] at hs

/-! ### Decimals -/

/-- The numeral of a number, without leading zeros. -/
structure IsDecimal (w : List Char) (n : Nat) : Prop where
  numeral : IsNumeral w
  value : placeValue w = n
  leading : 1 < w.length → w.head? ≠ some '0'

lemma head?_toDigits_ne_zero {n : Nat} (hn : n ≠ 0) : (Nat.toDigits 10 n).head? ≠ some '0' := by
  have hs : ∀ m < 10, m ≠ 0 → some m.digitChar ≠ some '0' := by decide
  -- The first digit is that of `n / 10`, as long as there is more than one.
  induction n using Nat.strong_induction_on with
  | _ n ih =>
    rcases Nat.lt_or_ge n 10 with hlt | hge
    · rw [Nat.toDigits_of_lt_base hlt, List.head?_cons]
      exact hs n hlt hn
    · have hq : n / 10 ≠ 0 := by omega
      rw [Nat.toDigits_of_base_le (by decide) hge,
        List.head?_append_of_ne_nil _ Nat.toDigits_ne_nil]
      exact ih (n / 10) (by omega) hq

lemma isDecimal_toDigits (n : Nat) : IsDecimal (Nat.toDigits 10 n) n := by
  refine ⟨⟨Nat.toDigits_ne_nil, fun c => Instruction.isDigit_of_mem⟩, ?_, fun hl => ?_⟩
  · rw [← decimalValue_eq, Instruction.decimalValue_toDigits]
  · refine head?_toDigits_ne_zero ?_
    rintro rfl
    simp at hl

/-! ### Constants -/

/-- The value that an instruction puts on the stack, if it is a constant. -/
def Instruction.constant? : Instruction → Option Int
  | constant z => some z
  | _ => none

def constants (code : List Instruction) : List Int := code.filterMap Instruction.constant?

@[simp] lemma constants_nil : constants [] = [] := rfl

@[simp] lemma constants_cons (i : Instruction) (code : List Instruction) :
    constants (i :: code) = i.constant?.toList ++ constants code := by
  cases hi : i.constant? <;> simp [constants, hi]

@[simp] lemma constants_append (code more : List Instruction) :
    constants (code ++ more) = constants code ++ constants more := by simp [constants]

lemma mem_constants {code : List Instruction} {z : Int} :
    z ∈ constants code ↔ .constant z ∈ code := by
  rw [constants, List.mem_filterMap]
  constructor
  · rintro ⟨i, hi, hz⟩
    cases i with
    | constant v =>
      cases hz
      exact hi
    | _ => cases hz
  · exact fun hi => ⟨_, hi, rfl⟩

/-- The lines of a listing that stand for constants. -/
def constantLines (text : String) : List (List Char) :=
  (text.toList.splitOn '\n').filter "CRCT ".toList.isPrefixOf

lemma isPrefixOf_text (i : Instruction) :
    "CRCT ".toList.isPrefixOf i.text.toList = i.constant?.isSome := by
  cases i with
  | operate op => cases op <;> rfl
  | _ => simp [Instruction.text, Instruction.constant?, Label.text, List.isPrefixOf]

lemma constantLines_listing (code : List Instruction) :
    constantLines (Instruction.listing code) =
      (constants code).map fun z => "CRCT ".toList ++ (toString z).toList := by
  have hl : ∀ i : Instruction, ([i.text.toList].filter "CRCT ".toList.isPrefixOf) =
      i.constant?.toList.map fun z => "CRCT ".toList ++ (toString z).toList := by
    intro i
    rw [List.filter_singleton, isPrefixOf_text]
    cases i with
    | constant z => simp [Instruction.constant?, Instruction.text]
    | _ => rfl
  rw [constantLines, Instruction.splitOn_listing, List.filter_append]
  induction code with
  | nil => rfl
  | cons i code ih =>
    rw [List.map_cons, ← List.singleton_append, List.filter_append, hl, List.append_assoc, ih,
      constants_cons, List.map_append]

namespace Grammar

def numbers (ts : List Token) : List Token := ts.filter fun t => t.kind = .number

@[simp] lemma numbers_nil : numbers [] = [] := rfl

@[simp] lemma numbers_cons (t : Token) (ts : List Token) :
    numbers (t :: ts) = if t.kind = .number then t :: numbers ts else numbers ts := by
  simp [numbers, List.filter_cons]

@[simp] lemma numbers_append (ts us : List Token) :
    numbers (ts ++ us) = numbers ts ++ numbers us := by
  simp [numbers]

variable {address : String → Nat}

lemma ExprTree.constants_code {c : ExprCategory} (D : ExprTree c) :
    constants (D.code address) =
      (numbers D.yield).map fun t => (placeValue t.lexeme.toList : Int) := by
  induction D <;> simp_all [code, yield, Instruction.constant?, decimalValue_eq]

lemma CommandTree.constants_code {c : CommandCategory} (C : CommandTree c) (n : Nat) :
    constants (C.code address n) =
      (numbers C.yield).map fun t => (placeValue t.lexeme.toList : Int) := by
  induction C generalizing n <;>
    simp_all [code, yield, Instruction.constant?, ExprTree.constants_code]

/-- **Each literal becomes a constant**, in the order of the text. -/
lemma Program.constants_code (P : Program) (e : Terminal .eof) :
    constants P.code =
      (numbers (P.yield ++ [e.1])).map fun t => (placeValue t.lexeme.toList : Int) := by
  have hh : numbers P.header = [] := by
    refine List.filter_eq_nil_iff.2 fun t ht hk => ?_
    have hm : t.kind ∈ kinds P.header := List.mem_map_of_mem ht
    rw [of_decide_eq_true hk] at hm
    exact P.not_mem_kinds_header (by decide) hm
  have ha : constants P.allocation = [] := by
    rw [allocation]
    cases P.declarations <;> rfl
  simp [code, yield, hh, ha, P.body.constants_code, Instruction.constant?]

end Grammar

/-! ### Another numeral in the place of a literal -/

def Tile.piece (x : Tile) : Piece := ⟨String.ofList x.gap, x.token.kind, x.token.lexeme⟩

lemma Tile.Fits.sound {p : Position} {x : Tile} {rest : List Char} (h : x.Fits p rest) :
    x.piece.Sound :=
  ⟨by simpa [Tile.piece] using h.blank, h.spells, h.inRange⟩

lemma print_piece (tiles : List Tile) (last : List Char) :
    (print (tiles.map Tile.piece) (String.ofList last)).toList = layout tiles last := by
  induction tiles with
  | nil => simp [print]
  | cons x tiles ih => simp [print, ih, Tile.piece, Tile.text, Tile.lexeme]

lemma Apart.congr {xs ys : List Piece} (ha : Apart xs)
    (h : xs.map (fun x => (x.gap, x.kind)) = ys.map fun x => (x.gap, x.kind)) : Apart ys := by
  have hc : ∀ zs : List Piece, Apart zs ↔ (zs.map fun x => (x.gap, x.kind)).IsChain
      fun u v => v.1 = "" → ¬ u.2.Fuses v.2 := by
    intro zs
    rw [List.isChain_map]
    rfl
  rw [hc, ← h, ← hc]
  exact ha

def Tile.respell (x : Tile) (s : String) : Tile := { x with token := { x.token with lexeme := s } }

lemma scansAs_respell {before after : List Tile} {x : Tile} {last : List Char} {d : String}
    (ht : Tiled .start (before ++ x :: after) last) (hl : AllBlank last)
    (hx : x.token.kind = .number) (hd : IsNumeral d.toList)
    (hv : Text.decimalValue d.toList ≤ Text.maxLiteral) :
    ScansAs (String.ofList (layout (before ++ x.respell d :: after) last))
      ((before ++ x.respell d :: after).map fun y => (y.token.kind, y.token.lexeme)) := by
  have hf : ∀ y ∈ before ++ x :: after, y.piece.Sound := by
    intro y hy
    obtain ⟨us, vs, he⟩ := List.append_of_mem hy
    exact (tiled_iff.1 ht us y vs he).sound
  have hs : ∀ y ∈ (before ++ x.respell d :: after).map Tile.piece, y.Sound := by
    simp only [List.forall_mem_map, List.forall_mem_append, List.forall_mem_cons] at hf ⊢
    refine ⟨hf.1, ⟨hf.2.1.blank, ?_, fun _ => hv⟩, hf.2.2⟩
    show Spells x.token.kind d
    rw [hx]
    exact .numeral hd
  have hlast : AllBlank (String.ofList last).toList := by simpa using hl
  -- Whether two pieces need a gap depends on their kinds, and the kinds have not changed.
  have ha : Apart ((before ++ x :: after).map Tile.piece) := by
    refine apart_of_tiled (List.forall_mem_map.2 hf) hlast ht (print_piece _ last).symm ?_
    rw [List.map_map]
    rfl
  have ha' : Apart ((before ++ x.respell d :: after).map Tile.piece) :=
    ha.congr (by simp [Tile.piece, Tile.respell])
  have hp := scansAs_print hs hlast ha'
  rw [List.map_map] at hp
  rw [← print_piece, String.ofList_toList]
  exact hp

lemma forall₂_means_respell {before after : List Tile} {x : Tile} {d : String} {us : List Token}
    (hx : x.token.kind = .number) (hv : placeValue d.toList = placeValue x.lexeme)
    (hu : us.map (fun t => (t.kind, t.lexeme)) =
      (before ++ x.respell d :: after).map fun y => (y.token.kind, y.token.lexeme)) :
    List.Forall₂ Token.Means ((before ++ x :: after).map Tile.token) us := by
  rw [List.map_append, List.map_cons] at hu
  obtain ⟨us₁, us₂, rfl, h₁, h₂⟩ := List.map_eq_append_iff.1 hu
  obtain ⟨u, us₃, rfl, h, h₃⟩ := List.map_eq_cons_iff.1 h₂
  obtain ⟨hk, hl⟩ := Prod.mk.inj h
  have hxu : x.token.Means u := by
    refine ⟨hk, fun hi => absurd (hx.symm.trans hi) (by decide), fun _ => ?_⟩
    rw [hl, decimalValue_eq, decimalValue_eq]
    exact hv
  rw [List.map_append, List.map_cons]
  refine List.rel_append (forall₂_means ?_) (.cons hxu (forall₂_means ?_))
  · rw [h₁, List.map_map]
    rfl
  · rw [h₃, List.map_map]
    rfl

lemma exists_tile_of_mem {a b d : String} {k : Kind} {ts : List Token} (hk : k ≠ .eof)
    (h : tokenize (a ++ d ++ b) = .ok ts) (hd : ⟨k, d, .after a.toList⟩ ∈ ts) :
    ∃ before x after last p, ts = (before ++ x :: after).map Tile.token ++ [⟨.eof, "", p⟩] ∧
      Tiled .start (before ++ x :: after) last ∧ AllBlank last ∧
      x.token = ⟨k, d, .after a.toList⟩ ∧ a.toList = layout before x.gap ∧
      b.toList = layout after last := by
  obtain ⟨tiles, last, he, hl, ht, rfl⟩ := exists_tiled_of_ok ((tokenize_eq _).symm.trans h)
  obtain ⟨x, hx, hxd⟩ : ∃ x ∈ tiles, x.token = ⟨k, d, .after a.toList⟩ := by
    simpa [hk] using hd
  obtain ⟨before, after, rfl⟩ := List.append_of_mem hx
  have hlex : x.lexeme = d.toList := by rw [Tile.lexeme, hxd]
  have hp : Position.after a.toList = Position.after (layout before x.gap) := by
    have hpos := (tiled_iff.1 ht before x after rfl).position
    rwa [hxd, ← Position.advance_append, ← layout_append, List.nil_append,
      Position.advance_start] at hpos
  have hsplit : a.toList ++ (d.toList ++ b.toList) =
      layout before x.gap ++ (d.toList ++ layout after last) := by
    rw [← List.append_assoc, ← String.toList_append, ← String.toList_append, he]
    simp [layout, Tile.text, hlex]
  obtain ⟨ha, hdb⟩ := eq_of_after_eq hsplit hp
  exact ⟨before, x, after, last, _, rfl, ht, hl, hxd, ha, List.append_cancel_left hdb⟩

/-- **Another numeral** of its value in the place of a literal: the tokens mean what they meant. -/
theorem tokenize_exchange {a b d d' : String} {ts : List Token}
    (h : tokenize (a ++ d ++ b) = .ok ts) (hd : ⟨.number, d, .after a.toList⟩ ∈ ts)
    (hd' : IsNumeral d'.toList) (hv : placeValue d'.toList = placeValue d.toList) :
    ∃ ts', tokenize (a ++ d' ++ b) = .ok ts' ∧ List.Forall₂ Token.Means ts ts' := by
  obtain ⟨before, x, after, last, p, rfl, ht, hl, hx, ha, hb⟩ := exists_tile_of_mem (by decide) h hd
  have hk : x.token.kind = .number := by rw [hx]
  have hlex : x.lexeme = d.toList := by rw [Tile.lexeme, hx]
  have hr : Text.decimalValue d'.toList ≤ Text.maxLiteral := by
    rw [decimalValue_eq, hv, ← decimalValue_eq, ← hlex]
    exact (tiled_iff.1 ht before x after rfl).inRange hk
  have htext : String.ofList (layout (before ++ x.respell d' :: after) last) = a ++ d' ++ b := by
    rw [← String.toList_inj, String.toList_append, String.toList_append, ha, hb]
    simp [layout, Tile.text, Tile.respell, Tile.lexeme]
  obtain ⟨us, e, hs, hu, hek, hel⟩ := scansAs_respell ht hl hk hd' hr
  rw [htext] at hs
  refine ⟨_, hs, List.rel_append (forall₂_means_respell hk (by rw [hv, hlex]) hu)
    (forall₂_means ?_)⟩
  simp [hek, hel]

/-! ### From the text to the listing -/

lemma placeValue_le_of_mem {source : String} {ts : List Token} {t : Token}
    (h : tokenize source = .ok ts) (ht : t ∈ Grammar.numbers ts) :
    placeValue t.lexeme.toList ≤ 2 ^ 63 - 1 := by
  obtain ⟨us, e, rfl, -, hr⟩ := tokenize_ok h
  obtain ⟨hm, hk⟩ := List.mem_filter.1 ht
  have hv := hr.append_eof e t hm (of_decide_eq_true hk)
  rwa [Grammar.isSome_literalValue?, decimalValue_eq] at hv

/-- **Literals are exact**: a numeral alone is scanned, as the one token it is, just when its value
fits. The constants of a program are the values of its literals in their order, each on its line of
the listing without leading zeros, and other numerals of the same values do not change the code. -/
theorem literals_exact :
    (∀ d : String, IsNumeral d.toList →
      (tokenize d = .ok [⟨.number, d, .start⟩, ⟨.eof, "", .after d.toList⟩] ↔
        placeValue d.toList ≤ 2 ^ 63 - 1) ∧
      ((∃ ts, tokenize d = .ok ts) ↔ placeValue d.toList ≤ 2 ^ 63 - 1)) ∧
    ∀ (source : String) (ts : List Token) (code : List Instruction),
      tokenize source = .ok ts → compile source = .ok code →
      constants code = (Grammar.numbers ts).map (fun t => (placeValue t.lexeme.toList : Int)) ∧
      List.Forall₂ (fun t line => ∃ w, line = "CRCT ".toList ++ w ∧
          IsDecimal w (placeValue t.lexeme.toList))
        (Grammar.numbers ts) (constantLines (Instruction.listing code)) ∧
      (∀ z : Int, .constant z ∈ code → 0 ≤ z ∧ z ≤ 2 ^ 63 - 1) ∧
      ∀ a d d' b : String, source = a ++ d ++ b → ⟨.number, d, .after a.toList⟩ ∈ ts →
        IsNumeral d'.toList → placeValue d'.toList = placeValue d.toList →
        compile (a ++ d' ++ b) = .ok code := by
  refine ⟨fun d hd => ?_, fun source ts code ht hc => ?_⟩
  · rw [tokenize_numeral hd]
    split <;> simp_all
  obtain ⟨P, e, hP, -, rfl⟩ := Grammar.exists_program_of_compile hc
  obtain rfl := Except.ok.inj (ht.symm.trans hP)
  have hconst := P.constants_code e
  refine ⟨hconst, ?_, ?_, ?_⟩
  -- Each constant is listed in decimal.
  · rw [constantLines_listing, hconst, List.map_map, List.forall₂_map_right_iff]
    refine List.forall₂_same.2 fun t _ => ⟨_, rfl, ?_⟩
    show IsDecimal (toString (Int.ofNat _)).toList _
    rw [Instruction.toList_ofNat]
    exact isDecimal_toDigits _
  -- The scanner has refused every larger numeral.
  · intro z hz
    rw [← mem_constants, hconst] at hz
    obtain ⟨t, ht', rfl⟩ := List.mem_map.1 hz
    have hv := placeValue_le_of_mem ht ht'
    omega
  -- Another numeral of that value in the same place.
  · rintro a d d' b rfl hd hd' hv
    obtain ⟨ts', ht', hm⟩ := tokenize_exchange ht hd hd' hv
    exact Grammar.compile_reworded ht ht' hm hc

/-- A program that writes the largest literal, behind zeros. -/
def padded : String := "program p;begin write(009223372036854775807)end."

theorem literals_exact_padded :
    tokenize "009223372036854775807" = .ok [⟨.number, "009223372036854775807", .start⟩,
      ⟨.eof, "", .after "009223372036854775807".toList⟩] ∧
    (¬ ∃ ts, tokenize "009223372036854775808" = .ok ts) ∧
    compile padded = .ok [.start, .constant 9223372036854775807, .write, .halt] ∧
    compile "program p;begin write(9223372036854775807)end." = compile padded := by
  have hd : IsNumeral "009223372036854775807".toList := ⟨by decide, List.all_eq_true.1 (by decide)⟩
  have hv : placeValue "009223372036854775807".toList = 2 ^ 63 - 1 := by decide +kernel
  have ho : placeValue "009223372036854775808".toList = 2 ^ 63 := by decide +kernel
  have ht : tokenize padded = .ok [⟨.programKw, "program", ⟨1, 1⟩⟩, ⟨.identifier, "p", ⟨1, 9⟩⟩,
      ⟨.semicolon, ";", ⟨1, 10⟩⟩, ⟨.beginKw, "begin", ⟨1, 11⟩⟩, ⟨.writeKw, "write", ⟨1, 17⟩⟩,
      ⟨.leftParen, "(", ⟨1, 22⟩⟩, ⟨.number, "009223372036854775807", ⟨1, 23⟩⟩,
      ⟨.rightParen, ")", ⟨1, 44⟩⟩, ⟨.endKw, "end", ⟨1, 45⟩⟩, ⟨.dot, ".", ⟨1, 48⟩⟩,
      ⟨.eof, "", ⟨1, 49⟩⟩] := by decide +kernel
  have hc : compile padded = .ok [.start, .constant 9223372036854775807, .write, .halt] := by
    decide +kernel
  refine ⟨(literals_exact.1 _ hd).1.2 hv.le, fun h => ?_, hc, ?_⟩
  · have hd' : IsNumeral "009223372036854775808".toList :=
      ⟨by decide, List.all_eq_true.1 (by decide)⟩
    have hle := (literals_exact.1 _ hd').2.1 h
    omega
  · rw [hc]
    exact (literals_exact.2 _ _ _ ht hc).2.2.2 "program p;begin write(" "009223372036854775807"
      "9223372036854775807" ")end." (by decide) (by decide)
      ⟨by decide, List.all_eq_true.1 (by decide)⟩ (by decide +kernel)

end OnePass
