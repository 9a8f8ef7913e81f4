import OnePass.Proofs.Invocation
import OnePass.Proofs.Listing
import OnePass.Proofs.Locality

/-!
The text of a message tells all there is to tell about a fault, and stays on one line.

A reader finds the parts of a message again, so two messages differ when any of their parts do,
whatever is said in the last of them. And nothing that a message quotes can end its line: lexemes
are made of letters, digits and signs, and a character that is no lexeme is shown escaped.
-/

namespace OnePass

/-! ### Reading a message -/

namespace Diagnostic

/-- The number that a text begins with, and what comes after its digits. -/
def readNumber (text : List Char) : Nat × List Char :=
  (Text.decimalValue (text.takeWhile Char.isDigit), text.dropWhile Char.isDigit)

/-- The stage whose title a text begins with, and what comes after the title. -/
def readStage? (text : List Char) : Option (Stage × List Char) :=
  [Stage.lexical, .syntactic, .semantic].findSome? fun s =>
    (text.dropPrefix? s.title.toList).map fun rest => (s, rest)

def read? (text : String) : Option Diagnostic := do
  let (line, text) := readNumber (← text.toList.dropPrefix? "Line ".toList)
  let (column, text) := readNumber (← text.dropPrefix? ", Column ".toList)
  let (stage, text) ← readStage? (← text.dropPrefix? ": ".toList)
  let description ← text.dropPrefix? " error: ".toList
  return ⟨stage, ⟨line, column⟩, String.ofList description⟩

lemma readNumber_append (n : Nat) (word rest : List Char)
    (h : word.head?.map Char.isDigit = some false) :
    readNumber (Nat.toDigits 10 n ++ (word ++ rest)) = (n, word ++ rest) := by
  have hd : ∀ c ∈ Nat.toDigits 10 n, c.isDigit = true := fun c => Instruction.isDigit_of_mem
  cases word with
  | nil => cases h
  | cons c word =>
    have hc : ¬ c.isDigit = true := by simpa using h
    rw [readNumber, List.takeWhile_append_of_pos hd, List.dropWhile_append_of_pos hd,
      List.cons_append, List.takeWhile_cons_of_neg hc, List.dropWhile_cons_of_neg hc,
      List.append_nil, Instruction.decimalValue_toDigits]

lemma readStage?_append (s : Stage) (rest : List Char) :
    readStage? (s.title.toList ++ rest) = some (s, rest) := by
  cases s <;> simp [readStage?, Stage.title, List.dropPrefix?]

lemma toList_message (d : Diagnostic) : d.message.toList =
    "Line ".toList ++ (Nat.toDigits 10 d.position.line ++ (", Column ".toList ++
      (Nat.toDigits 10 d.position.column ++ (": ".toList ++ (d.stage.title.toList ++
        (" error: ".toList ++ d.description.toList)))))) := by
  have hm : d.message = "Line " ++ toString d.position.line ++ ", Column " ++
      toString d.position.column ++ ": " ++ d.stage.title ++ " error: " ++ d.description := rfl
  simp [hm]

/-- **A message can be read back.** -/
theorem read?_message (d : Diagnostic) : read? d.message = some d := by
  have hp : ∀ word rest : List Char, (word ++ rest).dropPrefix? word = some rest :=
    fun word rest => List.dropPrefix?_append_of_beq rest (beq_self_eq_true word)
  have hc := fun n rest => readNumber_append n ", Column ".toList rest (by decide)
  have hs := fun n rest => readNumber_append n ": ".toList rest (by decide)
  simp only [read?, toList_message, hp, hc, hs, readStage?_append, Option.bind_eq_bind,
    Option.bind_some, Option.pure_def, String.ofList_toList]

lemma message_inj {d e : Diagnostic} : d.message = e.message ↔ d = e := by
  refine ⟨fun h => ?_, congrArg message⟩
  have hr := read?_message d
  rw [h, read?_message] at hr
  exact (Option.some.inj hr).symm

end Diagnostic

/-! ### Characters that stay on a line -/

namespace Text

/-- The control characters, and the two separators that end a line. -/
def breaks : CharSet := ⟨[(0x00, 0x1f), (0x7f, 0x9f), (0x2028, 0x2029)]⟩

/-- The text has no line break in it, nor any other control character. -/
def OneLine (s : String) : Prop := ∀ c ∈ s.toList, breaks.contains c = false

instance (s : String) : Decidable (OneLine s) :=
  decidable_of_iff (s.toList.all fun c => !breaks.contains c) (by simp [OneLine])

/-- One line, with the line feed that ends it. -/
def IsLine (s : String) : Prop := ∃ line, s = line ++ "\n" ∧ OneLine line

lemma OneLine.append {s t : String} (hs : OneLine s) (ht : OneLine t) : OneLine (s ++ t) := by
  rw [OneLine, String.toList_append, List.forall_mem_append]
  exact ⟨hs, ht⟩

variable {c : Char}

lemma CharSet.contains_of_mem {s : CharSet} {a b : Nat} (h : (a, b) ∈ s.ranges)
    (ha : a ≤ c.toNat) (hb : c.toNat ≤ b) : s.contains c = true :=
  List.any_eq_true.2 ⟨(a, b), h, by simp [ha, hb]⟩

lemma contains_breaks : breaks.contains c = true ↔
    c.toNat ≤ 0x1f ∨ 0x7f ≤ c.toNat ∧ c.toNat ≤ 0x9f ∨ 0x2028 ≤ c.toNat ∧ c.toNat ≤ 0x2029 := by
  simp [CharSet.contains, breaks]

lemma escaped_of_breaks (h : breaks.contains c = true) :
    (shortEscapes.lookup c).isSome = true ∨ unprintable.contains c = true := by
  have hs : ∀ n ∈ [0x0, 0x9, 0xa, 0xd], (shortEscapes.lookup (Char.ofNat n)).isSome = true := by
    decide
  by_cases hn : c.toNat ∈ [0x0, 0x9, 0xa, 0xd]
  · have hc := hs _ hn
    rw [Char.ofNat_toNat] at hc
    exact .inl hc
  · rw [contains_breaks] at h
    simp only [List.mem_cons, List.not_mem_nil, or_false] at hn
    -- The rest of the breaks are in these ranges of the table.
    have hr : (0x1 ≤ c.toNat ∧ c.toNat ≤ 0x8) ∨ (0xb ≤ c.toNat ∧ c.toNat ≤ 0xc) ∨
        (0xe ≤ c.toNat ∧ c.toNat ≤ 0x1f) ∨ (0x7f ≤ c.toNat ∧ c.toNat ≤ 0xa0) ∨
        (0x2028 ≤ c.toNat ∧ c.toNat ≤ 0x202f) := by omega
    rcases hr with hr | hr | hr | hr | hr <;>
      exact .inr (CharSet.contains_of_mem (by decide) hr.1 hr.2)

lemma oneLine_toDigits {b : Nat} (hb : 1 < b) (hb' : b ≤ 16) (n : Nat) :
    OneLine (String.ofList (Nat.toDigits b n)) := by
  have hd : ∀ m < 16, breaks.contains m.digitChar = false := by decide
  rw [OneLine, String.toList_ofList]
  induction n using Nat.strong_induction_on with
  | _ n ih =>
    rcases Nat.lt_or_ge n b with hlt | hge
    · rw [Nat.toDigits_of_lt_base hlt]
      simpa using hd n (by omega)
    · have hm : n % b < b := Nat.mod_lt n (by omega)
      rw [Nat.toDigits_of_base_le hb hge, List.forall_mem_append]
      refine ⟨ih (n / b) (Nat.div_lt_self (by omega) hb), ?_⟩
      simpa using hd (n % b) (by omega)

lemma oneLine_toString (n : Nat) : OneLine (toString n) :=
  oneLine_toDigits (by decide) (by decide) n

/-- **What stands for a character in a message** has no line break in it. -/
theorem oneLine_escape (c : Char) : OneLine (escape c) := by
  have hs : ∀ s ∈ shortEscapes.map (fun x => String.ofList ['\\', x.2]), OneLine s := by decide
  have hc := mt (escaped_of_breaks (c := c))
  unfold escape
  cases hl : shortEscapes.lookup c with
  | some d =>
    obtain ⟨before, after, hx, -⟩ := List.lookup_eq_some_iff.1 hl
    exact hs _ (List.mem_map.2 ⟨(c, d), by simp [hx], rfl⟩)
  | none =>
    cases hu : unprintable.contains c with
    | true =>
      have hx : OneLine (hex c) := oneLine_toDigits (by decide) (by decide) c.toNat
      exact ((by decide : OneLine "\\u\x7b").append hx).append (by decide)
    | false =>
      have hb : breaks.contains c = false := by simpa [hl, hu] using hc
      simpa [OneLine] using hb

lemma oneLine_of_isLexeme {s : String} (h : IsLexeme s.toList) : OneLine s := by
  have hs : ∀ v ∈ signs.map (fun x => x.1.toList), OneLine (String.ofList v) := by decide
  rcases h.mem_or_isSign with h | h
  · intro c hc
    have ha := h c hc
    rw [isAlphanum_iff, isAlpha_iff, isDigit_iff] at ha
    rw [Bool.eq_false_iff, ne_eq, contains_breaks]
    omega
  · have ho := hs _ h
    rwa [String.ofList_toList] at ho

end Text

open Text

/-! ### What messages quote -/

lemma Kind.oneLine_describe (k : Kind) : OneLine k.describe := by cases k <;> decide

lemma Wanted.oneLine_describe (w : Wanted) : OneLine w.describe := by
  cases w with
  | kind k => exact k.oneLine_describe
  | type | expression => decide

lemma Token.oneLine_describe {t : Token} (h : OneLine t.lexeme) : OneLine t.describe := by
  have hq : OneLine (t.kind.describe ++ " '" ++ t.lexeme ++ "'") :=
    ((t.kind.oneLine_describe.append (by decide)).append h).append (by decide)
  unfold describe
  split
  · exact hq
  · exact hq
  · exact t.kind.oneLine_describe

namespace Fault

/-- The lexeme that a message quotes as it is. -/
def quoted : Fault → Option String
  | strayCharacter .. => none
  | literalTooLarge _ digits => some digits
  | unexpected _ t | redeclared t | undeclared t => some t.lexeme

lemma oneLine_description {f : Fault} (h : ∀ s ∈ f.quoted, OneLine s) : OneLine f.description := by
  cases f with
  | strayCharacter p c =>
    exact ((by decide : OneLine "unexpected character '").append (oneLine_escape c)).append
      (by decide)
  | literalTooLarge p digits =>
    exact ((by decide : OneLine "integer literal ").append (h digits rfl)).append (by decide)
  | unexpected w t =>
    exact (((by decide : OneLine "expected ").append w.oneLine_describe).append (by decide)).append
      (Token.oneLine_describe (h _ rfl))
  | redeclared t | undeclared t =>
    exact ((by decide : OneLine "variable '").append (h _ rfl)).append (by decide)

end Fault

lemma Diagnostic.oneLine_message {d : Diagnostic} (h : OneLine d.description) :
    OneLine d.message := by
  have ht : OneLine d.stage.title := by cases d.stage <;> decide
  have hl : OneLine ("Line " ++ toString d.position.line ++ ", Column ") :=
    ((by decide : OneLine "Line ").append (oneLine_toString _)).append (by decide)
  have hc : OneLine (toString d.position.column ++ ": " ++ d.stage.title ++ " error: ") :=
    (((oneLine_toString _).append (by decide)).append ht).append (by decide)
  have hm : d.message = "Line " ++ toString d.position.line ++ ", Column " ++
      (toString d.position.column ++ ": " ++ d.stage.title ++ " error: ") ++ d.description := by
    simp only [← String.append_assoc]
    rfl
  rw [hm]
  exact (hl.append hc).append h

/-! ### Faults of compilations -/

lemma oneLine_lexeme {source : String} {ts : List Token} {t : Token} (h : tokenize source = .ok ts)
    (ht : t ∈ ts) : OneLine t.lexeme := by
  obtain ⟨tiles, last, -, -, hT, rfl⟩ := exists_tiled_of_ok ((tokenize_eq _).symm.trans h)
  rcases List.mem_append.1 ht with ht | ht
  · obtain ⟨x, hx, rfl⟩ := List.mem_map.1 ht
    obtain ⟨before, after, rfl⟩ := List.append_of_mem hx
    exact oneLine_of_isLexeme (tiled_iff.1 hT before x after rfl).spells.isLexeme
  · rw [List.mem_singleton.1 ht]
    simp [OneLine]

lemma oneLine_of_tokenize {source s : String} {f : Fault} (h : tokenize source = .error f)
    (hs : s ∈ f.quoted) : OneLine s := by
  obtain ⟨a, b, hb⟩ := exists_breaksAt h
  obtain ⟨f', hf, -⟩ := hb.exists_fails
  obtain rfl := Except.error.inj (h.symm.trans (hb.tokenize_eq_error hf))
  generalize b.toList = text at hf
  cases hf with
  | stray => cases hs
  | numeral hd =>
    cases hs
    exact oneLine_of_isLexeme (.inr (.inl (by simpa using hd)))

lemma Grammar.DecidedAt.exists_mem {ts : List Token} {f : Fault} {c : Nat}
    (h : DecidedAt ts f c) : ∃ t ∈ ts, f.quoted = some t.lexeme := by
  cases h with
  | unexpected h => exact ⟨_, List.mem_of_getElem? h, rfl⟩
  | undeclared h => exact ⟨_, List.mem_of_getElem? h, rfl⟩
  | redeclared hx => exact ⟨_, List.mem_of_getElem? hx, rfl⟩

/-- **The message of a failed compilation** is one line. -/
theorem oneLine_of_compile {source : String} {f : Fault} (h : compile source = .error f) :
    OneLine f.diagnostic.message := by
  refine Diagnostic.oneLine_message (Fault.oneLine_description fun s hs => ?_)
  have hf : (compileInto #[] source).result = .error f := map_eq_error.1 h
  cases ht : tokenize source with
  | error f' =>
    obtain rfl : f' = f := by
      rw [compileInto, ht] at hf
      exact Except.error.inj hf
    exact oneLine_of_tokenize ht hs
  | ok ts =>
    obtain ⟨us, t, vs, q, st, -, -, -, -, hd⟩ := Grammar.exists_stop #[] ht hf
    obtain ⟨x, hx, hq⟩ := hd.exists_mem
    rw [hq] at hs
    cases hs
    exact oneLine_lexeme ht hx

/-! ### The answer of the command line -/

/-- **Messages are faithful**: the text of a message determines the stage, the place and the
description, whatever this says. The message of a compilation that fails is one line, so that the
command line answers with one line, whatever the program text is. -/
theorem messages_faithful :
    (∀ d e : Diagnostic, d.message = e.message ↔ d.stage = e.stage ∧
      d.position.line = e.position.line ∧ d.position.column = e.position.column ∧
      d.description = e.description) ∧
    ∀ (source : String) (f : Fault), compile source = .error f →
      OneLine f.diagnostic.message ∧
      ∀ (read : String → Option String) (args : List String) (o : CommandLine.Options),
        CommandLine.Options.ofArguments args = .ok o → o.source read = some source →
        (Id.run (CommandLine.respond read args)).exitCode = 1 ∧
        (Id.run (CommandLine.respond read args)).stdout =
          "Error: " ++ f.diagnostic.message ++ "\n" ∧
        IsLine (Id.run (CommandLine.respond read args)).stdout := by
  refine ⟨fun d e => ?_, fun source f hf => ?_⟩
  · rw [Diagnostic.message_inj]
    obtain ⟨s, ⟨l, c⟩, m⟩ := d
    obtain ⟨s', ⟨l', c'⟩, m'⟩ := e
    simp [and_assoc]
  have hl := oneLine_of_compile hf
  refine ⟨hl, fun read args o ho hs => ?_⟩
  have hv : CommandLine.verdict source = (1, "Error: " ++ f.diagnostic.message ++ "\n") := by
    rw [CommandLine.verdict, hf]
  rw [CommandLine.respond_eq ho hs, CommandLine.compileReport_eq, hv]
  exact ⟨rfl, rfl, _, rfl, (by decide : OneLine "Error: ").append hl⟩

/-- A line separator, which is white space, and then a control character. -/
def unshowable : String := "\u2028\x1b"

theorem messages_faithful_unshowable :
    compile unshowable = .error (.strayCharacter ⟨1, 2⟩ '\x1b') ∧
    (Id.run (CommandLine.respond (fun _ => some unshowable) ["-v", "a"])).stdout =
      "Error: Line 1, Column 2: Lexical error: unexpected character '\\u\x7b1b\x7d'\n" ∧
    IsLine (Id.run (CommandLine.respond (fun _ => some unshowable) ["-v", "a"])).stdout ∧
    Diagnostic.message ⟨.syntactic, ⟨1, 12⟩, "Line 1, Column 12: Syntax error: "⟩ ≠
      Diagnostic.message ⟨.syntactic, ⟨11, 2⟩, "Line 1, Column 12: Syntax error: "⟩ := by
  have hc : compile unshowable = .error (.strayCharacter ⟨1, 2⟩ '\x1b') := by decide +kernel
  have ho : CommandLine.Options.ofArguments ["-v", "a"] = .ok ⟨some "a", 1, false⟩ := by
    decide +kernel
  obtain ⟨-, hs, hl⟩ := (messages_faithful.2 _ _ hc).2 (fun _ => some unshowable) _ _ ho rfl
  refine ⟨hc, hs.trans (by decide +kernel), hl, fun h => ?_⟩
  exact absurd ((messages_faithful.1 _ _).1 h).2.1 (by decide)

end OnePass
