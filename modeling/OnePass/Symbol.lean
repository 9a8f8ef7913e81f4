import OnePass.Fault

/-!
Declared variables and their addresses.
-/

namespace OnePass

/-- The types of the language. -/
inductive ValueType
  | integer
  deriving DecidableEq, Repr

def ValueType.name : ValueType → String
  | integer => "integer"

structure Symbol where
  name : String
  address : Nat
  type : ValueType
  deriving DecidableEq, Repr

/-- The declared names in order. A name's address is its place in the list. -/
structure SymbolTable where
  names : List String
  nodup : names.Nodup
  deriving DecidableEq

namespace SymbolTable

def empty : SymbolTable := ⟨[], List.nodup_nil⟩

def size (table : SymbolTable) : Nat := table.names.length

def isEmpty (table : SymbolTable) : Bool := table.names.isEmpty

/-- All symbols, in the order of their declaration. -/
def toList (table : SymbolTable) : List Symbol :=
  table.names.zipIdx.map fun p => ⟨p.1, p.2, .integer⟩

def get? (table : SymbolTable) (name : String) : Option Symbol :=
  (table.names.idxOf? name).map fun address => ⟨name, address, .integer⟩

theorem nodup_concat {names : List String} {name : String} (h : names.Nodup)
    (hn : name ∉ names) : (names ++ [name]).Nodup := by
  simp only [List.nodup_append, List.nodup_cons, List.mem_singleton]
  exact ⟨h, by simp, fun a ha _ hb hab => hn (hb ▸ hab ▸ ha)⟩

/-- Adds a new name, at the next address. Only the lexeme of the token counts. -/
def declare (table : SymbolTable) (t : Token) : Except Fault (Symbol × SymbolTable) :=
  if h : t.lexeme ∈ table.names then
    .error (.redeclared t)
  else
    .ok (⟨t.lexeme, table.size, .integer⟩,
      ⟨table.names ++ [t.lexeme], nodup_concat table.nodup h⟩)

/-- The symbol that a use of a name refers to. -/
def resolve (table : SymbolTable) (t : Token) : Except Fault Symbol :=
  match table.get? t.lexeme with
  | some s => .ok s
  | none => .error (.undeclared t)

end SymbolTable

end OnePass
