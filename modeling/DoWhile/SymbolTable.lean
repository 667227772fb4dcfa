import DoWhile.Json
import DoWhile.Position

/-!
# Symbol tables

A table lists the symbols that are defined, each name once and in the order of first definition.
Defining a name again puts a new symbol in the place of the old one. A symbol lives in a numbered
cell, so that whoever was handed a symbol can look at it later: an update changes the cell in
place, and a new definition retires the cell with the content that it had.

`SymbolTable.symbols` is the view through which the other modules see a table.
-/

set_option autoImplicit false

namespace DoWhile

/-- What is known of a name. -/
structure Symbol where
  name : String
  typeName : String
  value : Json := .null
  position : Position := Position.nowhere
  deriving Repr, Inhabited

/-- A symbol together with the number of the cell that it lives in. -/
structure Cell where
  id : Nat
  symbol : Symbol
  deriving Repr, Inhabited

/-- The cells of the defined names in order, and the cells that later definitions replaced. -/
structure SymbolTable where
  current : List Cell := []
  replaced : List Cell := []
  deriving Repr, Inhabited

namespace SymbolTable

/-- The table without symbols. -/
def empty : SymbolTable := ⟨[], []⟩

/-- The defined symbols, in the order in which their names were first defined. -/
def symbols (t : SymbolTable) : List Symbol := t.current.map (·.symbol)

/-- How many symbols the table holds. -/
def size (t : SymbolTable) : Nat := t.current.length

/-- The number of the next cell: cells are numbered in the order of definition. -/
def nextId (t : SymbolTable) : Nat := t.current.length + t.replaced.length

/-- The cell of a name, if the name is known. -/
def cell? (t : SymbolTable) (name : String) : Option Cell :=
  t.current.find? (fun c => c.symbol.name == name)

/-- The symbol of a name, if the name is known. -/
def lookup (t : SymbolTable) (name : String) : Option Symbol := (t.cell? name).map (·.symbol)

/-- Is the name known? -/
def contains (t : SymbolTable) (name : String) : Bool := (t.cell? name).isSome

/-- Defines a symbol in a new cell. A name that is defined already keeps its place in the order,
and its old cell is retired. -/
def define (t : SymbolTable) (s : Symbol) : SymbolTable :=
  match t.cell? s.name with
  | none => { t with current := t.current ++ [⟨t.nextId, s⟩] }
  | some old =>
    { current := t.current.map (fun c => if c.symbol.name == s.name then ⟨t.nextId, s⟩ else c)
      replaced := t.replaced ++ [old] }

/-- Gives a defined name a new value in its cell; a name that is not defined is left alone. -/
def update (t : SymbolTable) (name : String) (value : Json) : SymbolTable :=
  { t with current := t.current.map (fun c =>
      if c.symbol.name == name then { c with symbol := { c.symbol with value := value } } else c) }

/-- What the cell numbered `id` holds now. -/
def read? (t : SymbolTable) (id : Nat) : Option Symbol :=
  ((t.current ++ t.replaced).find? (fun c => c.id == id)).map (·.symbol)

end SymbolTable

end DoWhile
