import DoWhile.Fault
import DoWhile.SymbolTable

/-!
# Calls on one symbol table

A table can be driven call by call. A call that defines a symbol or looks one up hands out the
number of the symbol's cell, and a later call can ask what that cell holds by then. A table cannot
be asked for a key that is a list or a record. A call and its answer are data, so a history of calls
is a list.
-/

set_option autoImplicit false

namespace DoWhile.SymbolTable

/-- The calls that a table answers, and looking at a symbol that an earlier step gave out. -/
inductive Call where
  | define (symbol : Symbol)
  | update (name : String) (value : Json)
  | lookup (name : String)
  | isDeclared (name : String)
  | contains (key : Json)
  | size
  | symbols
  | held (step : Nat)
  deriving Repr, Inhabited

/-- What a table answers to a call. -/
inductive Answer where
  | symbol (value : Option Symbol)
  | symbols (value : List Symbol)
  | truth (value : Bool)
  | count (value : Nat)
  | fault (fault : Fault)
  deriving Repr, Inhabited

/-- A table together with the cells that the calls so far handed out, one entry for each call. -/
structure History where
  table : SymbolTable := SymbolTable.empty
  handed : List (Option Nat) := []
  deriving Repr, Inhabited

namespace History

/-- The history after a call that left `table` and handed out the cell `id?`. -/
def after (h : History) (table : SymbolTable) (id? : Option Nat) : History :=
  ⟨table, h.handed ++ [id?]⟩

/-- The answer to one call and the history after it. -/
def run (h : History) : Call → Answer × History
  | .define s =>
    let table := h.table.define s
    (.symbol (table.lookup s.name), h.after table ((table.cell? s.name).map (·.id)))
  | .update name value =>
    (.truth (h.table.contains name), h.after (h.table.update name value) none)
  | .lookup name =>
    (.symbol (h.table.lookup name), h.after h.table ((h.table.cell? name).map (·.id)))
  | .isDeclared name => (.truth (h.table.contains name), h.after h.table none)
  | .contains key =>
    let found := (key.text?.map h.table.contains).getD false
    ((key.unhashable?.map fun className => .fault (.unhashable className)).getD (.truth found),
      h.after h.table none)
  | .size => (.count h.table.size, h.after h.table none)
  | .symbols => (.symbols h.table.symbols, h.after h.table none)
  | .held step =>
    (.symbol ((h.handed.getD step none).bind h.table.read?), h.after h.table none)

/-- The answers to a list of calls, each with the history that it left. -/
def runAll (h : History) : List Call → List (Answer × History)
  | [] => []
  | call :: calls =>
    let step := h.run call
    step :: runAll step.2 calls

end History

end DoWhile.SymbolTable
