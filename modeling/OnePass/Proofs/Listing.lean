import Mathlib.Tactic.Lemma
import OnePass.Instruction
import OnePass.Text.Literal

/-!
Listings can be read back: a reader finds the instructions of a listing again, so no two stretches
of code have the same listing.
-/

namespace OnePass.Instruction

/-! ### Reading a line -/

def readNat (s : String) : Nat := Text.decimalValue s.toList

def readInt (s : String) : Int :=
  match s.toList with
  | '-' :: digits => -Text.decimalValue digits
  | digits => Text.decimalValue digits

def readLabel (s : String) : Label := ⟨Text.decimalValue (s.toList.filter Char.isDigit)⟩

/-- The instructions without an operand. -/
def bare : List Instruction :=
  [start, operate .add, operate .subtract, operate .multiply, operate .divide,
    operate .lessOrEqual, read, write, halt]

/-- The instruction that the fields of a line stand for. -/
def ofFields? : List String → Option Instruction
  | [word] => bare.find? (·.text = word)
  | [label, "NADA"] => some (anchor (readLabel label))
  | ["AMEM", operand] => some (allocate (readNat operand))
  | ["ARMZ", operand] => some (store (readNat operand))
  | ["CRVL", operand] => some (load (readNat operand))
  | ["CRCT", operand] => some (constant (readInt operand))
  | ["DSVF", operand] => some (jumpIfFalse (readLabel operand))
  | ["DSVS", operand] => some (jump (readLabel operand))
  | _ => none

def ofLine? (line : List Char) : Option Instruction :=
  ofFields? ((line.splitOn ' ').map String.ofList)

/-- The code that a listing stands for. Every line ends in a line feed, so nothing comes after the
last one. -/
def readListing? (text : String) : Option (List Instruction) :=
  (text.toList.splitOn '\n').dropLast.mapM ofLine?

/-! ### Numbers -/

lemma isDigit_of_mem {n : Nat} {c : Char} (h : c ∈ Nat.toDigits 10 n) : c.isDigit = true :=
  Nat.isDigit_of_mem_toDigits (by decide) (by decide) h

lemma decimalValue_toDigits (n : Nat) : Text.decimalValue (Nat.toDigits 10 n) = n :=
  Nat.ofDigitChars_toDigits (by decide) (by decide)

lemma readNat_toString (n : Nat) : readNat (toString n) = n := by
  simp [readNat, decimalValue_toDigits]

lemma toList_ofNat (n : Nat) : (toString (Int.ofNat n)).toList = Nat.toDigits 10 n := by
  have hs : toString (Int.ofNat n) = toString n := rfl
  rw [hs]
  simp

lemma toList_negSucc (n : Nat) :
    (toString (Int.negSucc n)).toList = '-' :: Nat.toDigits 10 (n + 1) := by
  have hs : toString (Int.negSucc n) = "-" ++ toString (n + 1) := rfl
  simp [hs]

lemma readInt_toString (z : Int) : readInt (toString z) = z := by
  cases z with
  | ofNat n =>
    rw [readInt, toList_ofNat]
    split
    · rename_i digits hd
      -- A number without a sign begins with a digit.
      have hm : '-' ∈ Nat.toDigits 10 n := by simp [hd]
      exact absurd (isDigit_of_mem hm) (by decide)
    · rw [decimalValue_toDigits]
      rfl
  | negSucc n =>
    rw [readInt, toList_negSucc]
    simp only [decimalValue_toDigits]
    rfl

lemma toList_label (l : Label) : l.text.toList = 'L' :: Nat.toDigits 10 l.number := by
  simp [Label.text]

lemma filter_isDigit (n : Nat) : (Nat.toDigits 10 n).filter Char.isDigit = Nat.toDigits 10 n :=
  List.filter_eq_self.2 fun _ hc => isDigit_of_mem hc

lemma readLabel_text (l : Label) : readLabel l.text = l := by
  have hl : ('L').isDigit = false := by decide
  rw [readLabel, toList_label, List.filter_cons_of_neg (by simp [hl]), filter_isDigit,
    decimalValue_toDigits]

lemma readLabel_anchor (l : Label) : readLabel (l.text ++ ":") = l := by
  have hl : ('L').isDigit = false := by decide
  have hc : (':').isDigit = false := by decide
  rw [readLabel, String.toList_append, toList_label, List.cons_append,
    List.filter_cons_of_neg (by simp [hl]), List.filter_append, filter_isDigit]
  simp [hc, decimalValue_toDigits]

/-! ### Lines -/

/-- The fields of the line of an instruction. -/
def fields : Instruction → List String
  | allocate cells => ["AMEM", toString cells]
  | store address => ["ARMZ", toString address]
  | load address => ["CRVL", toString address]
  | constant value => ["CRCT", toString value]
  | jumpIfFalse target => ["DSVF", target.text]
  | jump target => ["DSVS", target.text]
  | anchor label => [label.text ++ ":", "NADA"]
  | i => [i.text]

lemma text_eq_intercalate (i : Instruction) :
    i.text.toList = [' '].intercalate (i.fields.map String.toList) := by
  cases i <;> simp [text, fields, List.intercalate]

/-- Neither a space nor a line feed is in the text. -/
def solid (s : String) : Bool := s.toList.all fun c => c != ' ' && c != '\n'

lemma not_mem_of_solid {s : String} (h : solid s = true) : ' ' ∉ s.toList ∧ '\n' ∉ s.toList := by
  rw [solid, List.all_eq_true] at h
  exact ⟨fun hm => absurd (h _ hm) (by decide), fun hm => absurd (h _ hm) (by decide)⟩

lemma all_toDigits (n : Nat) :
    (Nat.toDigits 10 n).all (fun c => c != ' ' && c != '\n') = true := by
  refine List.all_eq_true.2 fun c hc => ?_
  have hd := isDigit_of_mem hc
  simp only [Bool.and_eq_true, bne_iff_ne]
  constructor
  · rintro rfl
    exact absurd hd (by decide)
  · rintro rfl
    exact absurd hd (by decide)

lemma solid_nat (n : Nat) : solid (toString n) = true := by
  simpa [solid] using all_toDigits n

lemma solid_int (z : Int) : solid (toString z) = true := by
  cases z with
  | ofNat n => rw [solid, toList_ofNat, all_toDigits]
  | negSucc n => rw [solid, toList_negSucc, List.all_cons, all_toDigits]; rfl

lemma solid_label (l : Label) : solid l.text = true := by
  rw [solid, toList_label, List.all_cons, all_toDigits]
  rfl

lemma solid_pair {s t : String} (hs : solid s = true) (ht : solid t = true) :
    ∀ w ∈ [s, t], solid w = true := by
  simp [hs, ht]

lemma solid_fields (i : Instruction) : ∀ s ∈ i.fields, solid s = true := by
  cases i with
  | allocate n | store n | load n => exact solid_pair (by decide) (solid_nat n)
  | constant z => exact solid_pair (by decide) (solid_int z)
  | jumpIfFalse l | jump l => exact solid_pair (by decide) (solid_label l)
  | anchor l =>
    refine solid_pair ?_ (by decide)
    rw [solid, String.toList_append, List.all_append, ← solid, solid_label]
    rfl
  | operate op => cases op <;> decide
  | _ => decide

lemma not_mem_text (i : Instruction) : '\n' ∉ i.text.toList := by
  have hs : ∀ s ∈ i.fields, '\n' ∉ s.toList :=
    fun s hs => (not_mem_of_solid (solid_fields i s hs)).2
  rw [text_eq_intercalate]
  cases i <;> simp_all [fields, List.intercalate]

/-- No operand is taken for the `NADA` of an anchor, since it would have to begin like it. -/
lemma ne_nada {s : String} (h : s.toList.head? ≠ some 'N') : s ≠ "NADA" := by
  rintro rfl
  exact h (by decide)

lemma head?_toDigits_ne (n : Nat) : (Nat.toDigits 10 n).head? ≠ some 'N' := by
  intro h
  exact absurd (isDigit_of_mem (List.mem_of_head? h)) (by decide)

lemma nat_ne_nada (n : Nat) : toString n ≠ "NADA" :=
  ne_nada (by simpa using head?_toDigits_ne n)

lemma int_ne_nada (z : Int) : toString z ≠ "NADA" := by
  refine ne_nada ?_
  cases z with
  | ofNat n =>
    rw [toList_ofNat]
    exact head?_toDigits_ne n
  | negSucc n =>
    rw [toList_negSucc]
    simp

lemma label_ne_nada (l : Label) : l.text ≠ "NADA" := ne_nada (by simp [toList_label])

lemma ofFields?_fields (i : Instruction) : ofFields? i.fields = some i := by
  cases i with
  | allocate n | store n | load n =>
    rw [fields, ofFields?, readNat_toString]
    exact nat_ne_nada n
  | constant z =>
    rw [fields, ofFields?, readInt_toString]
    exact int_ne_nada z
  | jumpIfFalse l | jump l =>
    rw [fields, ofFields?, readLabel_text]
    exact label_ne_nada l
  | anchor l => rw [fields, ofFields?, readLabel_anchor]
  | operate op => cases op <;> rfl
  | _ => rfl

/-- **A line** is read as its instruction. -/
lemma ofLine?_text (i : Instruction) : ofLine? i.text.toList = some i := by
  have hf : i.fields ≠ [] := by cases i <;> simp [fields]
  rw [ofLine?, text_eq_intercalate, List.splitOn_intercalate, List.map_map]
  · simp [Function.comp_def, ofFields?_fields]
  · intro w hw
    obtain ⟨s, hs, rfl⟩ := List.mem_map.1 hw
    exact (not_mem_of_solid (solid_fields i s hs)).1
  · simpa using hf

/-! ### Listings -/

lemma splitOn_listing (code : List Instruction) :
    (listing code).toList.splitOn '\n' = code.map (fun i => i.text.toList) ++ [[]] := by
  have ht : (listing code).toList =
      ['\n'].intercalate (code.map (fun i => i.text.toList) ++ [[]]) := by
    induction code with
    | nil => rfl
    | cons i code ih =>
      rw [listing_cons, String.toList_append, String.toList_append, ih, List.map_cons,
        List.cons_append, List.intercalate_cons_of_ne_nil (by simp)]
      rfl
  rw [ht]
  refine List.splitOn_intercalate _ (fun line hl => ?_) (by simp)
  rcases List.mem_append.1 hl with hl | hl
  · obtain ⟨i, -, rfl⟩ := List.mem_map.1 hl
    exact i.not_mem_text
  · simp_all

lemma count_listing (code : List Instruction) : (listing code).toList.count '\n' = code.length := by
  induction code with
  | nil => rfl
  | cons i code ih =>
    have hi : i.text.toList.count '\n' = 0 := List.count_eq_zero.2 i.not_mem_text
    rw [listing_cons, String.toList_append, String.toList_append, List.count_append,
      List.count_append, hi, ih, List.length_cons]
    simp [Nat.add_comm]

lemma readListing?_listing (code : List Instruction) : readListing? (listing code) = some code := by
  rw [readListing?, splitOn_listing, List.dropLast_concat]
  induction code with
  | nil => rfl
  | cons i code ih =>
    rw [List.map_cons, List.mapM_cons, ofLine?_text, ih]
    rfl

/-- **Listings can be read back**: from a listing its code is found again, so code is determined by
its listing. The listing of code in two parts is that of the parts, and each instruction has one
line, which a line feed ends. -/
theorem listing_readable (code code' : List Instruction) :
    readListing? (listing code) = some code ∧
    (listing code = listing code' ↔ code = code') ∧
    listing (code ++ code') = listing code ++ listing code' ∧
    (listing code).toList.splitOn '\n' = code.map (fun i => i.text.toList) ++ [[]] ∧
    (listing code).toList.count '\n' = code.length := by
  refine ⟨readListing?_listing code, ⟨fun h => ?_, congrArg listing⟩, listing_append code code',
    splitOn_listing code, count_listing code⟩
  have hr := readListing?_listing code
  rw [h, readListing?_listing] at hr
  exact (Option.some.inj hr).symm

/-- The least constant and the greatest label of 64 bits. -/
example : readListing? "CRCT -9223372036854775808\nL18446744073709551615: NADA\n" =
    some [.constant (-2 ^ 63), .anchor ⟨2 ^ 64 - 1⟩] := by decide +kernel

end OnePass.Instruction
