import Mathlib.Data.List.Induction
import Mathlib.Data.List.Infix
import Mathlib.Tactic.Lemma
import OnePass.Symbol

/-!
The table of symbols over a whole run of calls, some of them refused.

What a table lists after a run is determined by the names that were to be declared, each counted
once. So the answer to the next call can be told from the calls before it.
-/

namespace OnePass.SymbolTable

inductive Call
  | declare (t : Token)
  | resolve (t : Token)
  | get (name : String)

inductive Answer
  | symbol (s : Symbol)
  | absent
  | refused (f : Fault)

/-- The answer to a call, and the table after it. -/
def perform (table : SymbolTable) : Call → Answer × SymbolTable
  | .declare t =>
    match table.declare t with
    | .ok (s, larger) => (.symbol s, larger)
    | .error f => (.refused f, table)
  | .resolve t =>
    match table.resolve t with
    | .ok s => (.symbol s, table)
    | .error f => (.refused f, table)
  | .get name =>
    match table.get? name with
    | some s => (.symbol s, table)
    | none => (.absent, table)

/-- The table after a run of calls that began with an empty one. -/
def afterCalls (calls : List Call) : SymbolTable :=
  calls.foldl (fun table c => (table.perform c).2) empty

/-- The name that a call is to declare. -/
def Call.name? : Call → Option String
  | declare t => some t.lexeme
  | resolve _ | get _ => none

/-- The names that the calls are to declare, each at its first occurrence. -/
def namesIn (calls : List Call) : List String := (calls.filterMap Call.name?).eraseDups

variable {table : SymbolTable} {t : Token} {name : String} {k : Nat}

/-! ### One call -/

lemma declare_of_mem (h : t.lexeme ∈ table.names) : table.declare t = .error (.redeclared t) := by
  rw [declare, dif_pos h]

lemma declare_of_not_mem (h : t.lexeme ∉ table.names) :
    table.declare t = .ok (⟨t.lexeme, table.size, .integer⟩,
      ⟨table.names ++ [t.lexeme], nodup_concat table.nodup h⟩) := by
  rw [declare, dif_neg h]

lemma get?_of_getElem? (h : table.names[k]? = some name) :
    table.get? name = some ⟨name, k, .integer⟩ := by
  obtain ⟨hk, hn⟩ := List.getElem?_eq_some_iff.1 h
  have hi : table.names.idxOf? name = some k := by
    refine List.idxOf?_eq_some_iff.2 ⟨hk, hn, fun j hj he => ?_⟩
    have hj' : table.names[j]? = some name := List.getElem?_eq_some_iff.2 ⟨by omega, he⟩
    have hjk : j = k := (List.getElem?_inj (by omega) table.nodup).1 (hj'.trans h.symm)
    omega
  rw [get?, hi, Option.map_some]

lemma get?_of_not_mem (h : name ∉ table.names) : table.get? name = none := by
  rw [get?, List.idxOf?_eq_none_iff.2 h, Option.map_none]

/-- How a table that lists `names` answers the next call. -/
structure Lists (table : SymbolTable) (names : List String) : Prop where
  symbols : table.toList = names.zipIdx.map fun x => ⟨x.1, x.2, .integer⟩
  declare_listed : ∀ t : Token, t.lexeme ∈ names → ∃ f : Fault,
    table.perform (.declare t) = (.refused f, table) ∧
      f.stage = .semantic ∧ f.position = t.position
  declare_new : ∀ t : Token, t.lexeme ∉ names → ∃ larger : SymbolTable,
    table.perform (.declare t) = (.symbol ⟨t.lexeme, names.length, .integer⟩, larger) ∧
      larger.toList = table.toList ++ [⟨t.lexeme, names.length, .integer⟩]
  resolve_listed : ∀ (t : Token) (k : Nat), names[k]? = some t.lexeme →
    table.perform (.resolve t) = (.symbol ⟨t.lexeme, k, .integer⟩, table)
  resolve_new : ∀ t : Token, t.lexeme ∉ names → ∃ f : Fault,
    table.perform (.resolve t) = (.refused f, table) ∧
      f.stage = .semantic ∧ f.position = t.position
  get_listed : ∀ (name : String) (k : Nat), names[k]? = some name →
    table.perform (.get name) = (.symbol ⟨name, k, .integer⟩, table)
  get_new : ∀ name : String, name ∉ names → table.perform (.get name) = (.absent, table)

lemma lists_names (table : SymbolTable) : table.Lists table.names where
  symbols := rfl
  declare_listed t h := ⟨.redeclared t, by rw [perform, declare_of_mem h], rfl, rfl⟩
  declare_new t h := by
    refine ⟨_, by rw [perform, declare_of_not_mem h]; rfl, ?_⟩
    simp [toList, List.zipIdx_append]
  resolve_listed t k h := by rw [perform, resolve, get?_of_getElem? h]
  resolve_new t h := ⟨.undeclared t, by rw [perform, resolve, get?_of_not_mem h], rfl, rfl⟩
  get_listed name k h := by rw [perform, get?_of_getElem? h]
  get_new name h := by rw [perform, get?_of_not_mem h]

/-- **One call** adds the name that it is to declare, unless it is listed. -/
lemma names_perform (table : SymbolTable) (c : Call) :
    (table.perform c).2.names = table.names ++ c.name?.toList.removeAll table.names := by
  cases c with
  | declare t =>
    by_cases h : t.lexeme ∈ table.names
    · rw [perform, declare_of_mem h]
      simp [Call.name?, List.removeAll, h]
    · rw [perform, declare_of_not_mem h]
      simp [Call.name?, List.removeAll, h]
  | resolve t =>
    rw [perform]
    split <;> simp [Call.name?, List.removeAll]
  | get name =>
    rw [perform]
    split <;> simp [Call.name?, List.removeAll]

/-! ### Runs -/

lemma afterCalls_append (calls more : List Call) :
    afterCalls (calls ++ more) = more.foldl (fun table c => (table.perform c).2)
      (afterCalls calls) := by
  rw [afterCalls, List.foldl_append, afterCalls]

lemma namesIn_concat (calls : List Call) (c : Call) :
    namesIn (calls ++ [c]) = namesIn calls ++ c.name?.toList.removeAll (namesIn calls) := by
  have hr : ∀ xs : List String, c.name?.toList.removeAll xs.eraseDups =
      (c.name?.toList.removeAll xs).eraseDups := by
    intro xs
    cases c.name? with
    | none => simp [List.removeAll]
    | some x => by_cases hx : x ∈ xs <;> simp [List.removeAll, List.eraseDups_cons, hx]
  have hf : [c].filterMap Call.name? = c.name?.toList := by
    cases h : c.name? <;> simp [h]
  rw [namesIn, List.filterMap_append, List.eraseDups_append, hf, ← hr, namesIn]

/-- **A run of calls** lists the names that were to be declared. -/
theorem names_afterCalls (calls : List Call) : (afterCalls calls).names = namesIn calls := by
  induction calls using List.reverseRecOn with
  | nil => rfl
  | append_singleton calls c ih =>
    rw [afterCalls_append, List.foldl_cons, List.foldl_nil, names_perform, ih, namesIn_concat]

lemma names_prefix_foldl (table : SymbolTable) (calls : List Call) :
    table.names <+: (calls.foldl (fun table c => (table.perform c).2) table).names := by
  induction calls generalizing table with
  | nil => exact List.prefix_rfl
  | cons c calls ih =>
    have hc : table.names <+: (table.perform c).2.names := by
      rw [names_perform]
      exact List.prefix_append _ _
    exact hc.trans (ih _)

lemma toList_prefix {larger : SymbolTable} (h : table.names <+: larger.names) :
    table.toList <+: larger.toList := by
  obtain ⟨more, he⟩ := h
  rw [toList, toList, ← he, List.zipIdx_append, List.map_append]
  exact List.prefix_append _ _

lemma eq_iff_names {other : SymbolTable} : table = other ↔ table.names = other.names := by
  cases table
  cases other
  rw [mk.injEq]

/-- **The table over a run of calls**: at any time it lists the names that were to be declared so
far, each once and at the next address, and answers by that list. No later call changes or removes
what is listed, and two runs end in the same table just when they list the same names. -/
theorem afterCalls_lists (calls : List Call) :
    (afterCalls calls).Lists (namesIn calls) ∧
    (∀ more, (afterCalls calls).toList <+: (afterCalls (calls ++ more)).toList) ∧
    ∀ calls', (afterCalls calls == afterCalls calls') = true ↔ namesIn calls = namesIn calls' := by
  refine ⟨?_, fun more => ?_, fun calls' => ?_⟩
  · rw [← names_afterCalls]
    exact lists_names _
  · rw [afterCalls_append]
    exact toList_prefix (names_prefix_foldl _ _)
  · rw [beq_iff_eq, eq_iff_names, names_afterCalls, names_afterCalls]

/-- The name that is refused takes no address. -/
example : (afterCalls [.declare ⟨.identifier, "x", ⟨1, 1⟩⟩, .declare ⟨.identifier, "x", ⟨1, 4⟩⟩,
    .declare ⟨.identifier, "y", ⟨1, 7⟩⟩]).toList =
      [⟨"x", 0, .integer⟩, ⟨"y", 1, .integer⟩] := by decide

end OnePass.SymbolTable
