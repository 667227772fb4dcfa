import DoWhile.Event
import DoWhile.Fault
import DoWhile.Program
import DoWhile.SymbolTable

/-!
# The name checker

A checker holds a symbol table, the diagnostics raised so far and the names that need no
declaration. Checking a program goes over its statements twice: the first pass collects the
declarations, down into loop bodies, and complains of names that are declared again; the second
pass looks at every use and complains of names that are declared nowhere. A declaration therefore
serves uses before and after it.

A tree may hold anything where a row of statements, a statement or an expression is expected. A row
is gone through item by item, a text character by character; nothing else can be gone through. The
pass that meets something that it does not know stops with a fault, and the checker keeps the work
done up to there (`Progress`).
-/

set_option autoImplicit false

namespace DoWhile

/-- A checker: the names that need no declaration, the table and the diagnostics so far, and what
was logged. -/
structure Checker where
  implicit : List String
  table : SymbolTable := SymbolTable.empty
  errors : List Diagnostic := []
  log : List Event := []
  deriving Repr, Inhabited

/-- The names that need no declaration unless told otherwise. -/
def defaultImplicit : List String := ["x"]

/-- A checker after some work, and the fault that stopped the work, if one did. -/
structure Progress where
  checker : Checker
  fault : Option Fault := none
  deriving Repr, Inhabited

/-- Goes on with `work` unless a fault has stopped the work already. -/
def Progress.andThen (p : Progress) (work : Checker → Progress) : Progress :=
  match p.fault with
  | none => work p.checker
  | some _ => p

namespace Checker

/-- A checker that has seen nothing yet. -/
def new (implicit : List String) : Checker := { implicit := implicit }

/-- Records a complaint, and that it was reported. -/
def complain (c : Checker) (complaint : Complaint) (p : Position) : Checker :=
  let d : Diagnostic := ⟨.naming, complaint, p⟩
  { c with errors := c.errors ++ [d], log := c.log ++ [.reported d] }

/-- Records a declaration: a new name enters the table, a known one is complained of. -/
def declare (c : Checker) (typeName name : String) (p : Position) : Checker :=
  if c.table.contains name then c.complain (.alreadyDeclared name) p
  else { c with table := c.table.define { name := name, typeName := typeName } }

/-- Looks at the use of a name: it has to be implicit or declared. -/
def verifyName (c : Checker) (name : String) (p : Position) : Checker :=
  if name ∈ c.implicit ∨ c.table.contains name then c else c.complain (.usedBeforeDeclared name) p

/-- Stops at a statement of no known kind. -/
def stopAtStatement (node : Tree) (c : Checker) : Progress :=
  ⟨c, some (.naming .unknownStatement node)⟩

/-- Goes through the characters of a text as statements: the first one, if there is one, stops. -/
def meetCharacters : List Char → Checker → Progress
  | [], c => ⟨c, none⟩
  | ch :: _, c => c.stopAtStatement (.text (String.singleton ch))

/-! ## Collecting declarations -/

mutual

/-- Collects the declarations of one statement. -/
def collectFrom : Tree → Checker → Progress
  | .declaration typeName name _ p, c => ⟨c.declare typeName name p, none⟩
  | .loop body _ _, c => collect body c
  | .assignment _ _ _, c => ⟨c, none⟩
  | node, c => c.stopAtStatement node

/-- Collects the declarations of what stands where a row of statements is expected. -/
def collect : Tree → Checker → Progress
  | .sequence items, c => collectAll items c
  | .text s, c => meetCharacters s.toList c
  | node, c => ⟨c, some (.notIterable node.className)⟩

/-- Collects the declarations of a list of statements, in order. -/
def collectAll : List Tree → Checker → Progress
  | [], c => ⟨c, none⟩
  | s :: ss, c => (collectFrom s c).andThen (collectAll ss)

end

/-! ## Verifying uses -/

/-- Verifies the names that an expression uses, from left to right. -/
def verifyExpr : Tree → Checker → Progress
  | .identifier name p, c => ⟨c.verifyName name p, none⟩
  | .binary left _ right _, c => (verifyExpr left c).andThen (verifyExpr right)
  | .number _ _, c => ⟨c, none⟩
  | node, c => ⟨c, some (.naming .unknownExpression node)⟩

mutual

/-- Verifies the names that one statement uses: the target of an assignment before its value, the
body of a loop before its condition. -/
def verifyFrom : Tree → Checker → Progress
  | .declaration _ _ value _, c => verifyExpr value c
  | .assignment target value p, c => verifyExpr value (c.verifyName target p)
  | .loop body condition _, c => (verify body c).andThen (verifyExpr condition)
  | node, c => c.stopAtStatement node

/-- Verifies the names that are used by what stands where a row of statements is expected. -/
def verify : Tree → Checker → Progress
  | .sequence items, c => verifyAll items c
  | .text s, c => meetCharacters s.toList c
  | node, c => ⟨c, some (.notIterable node.className)⟩

/-- Verifies the names that a list of statements uses, in order. -/
def verifyAll : List Tree → Checker → Progress
  | [], c => ⟨c, none⟩
  | s :: ss, c => (verifyFrom s c).andThen (verifyAll ss)

end

/-! ## The whole check -/

/-- Notes how much the checker knows. -/
def conclude (c : Checker) : Checker :=
  { c with log := c.log ++ [.checked c.table.size c.errors.length] }

/-- Checks a program: collects the declarations of its statements, then verifies their uses. -/
def check (c : Checker) : Tree → Progress
  | .program statements =>
    ((collect statements c).andThen (verify statements)).andThen fun c => ⟨c.conclude, none⟩
  | node => ⟨c, some (.noStatements node.className)⟩

end Checker

/-- Checks a program with a new checker. -/
def Program.check (implicit : List String) (p : Program) : Progress :=
  (Checker.new implicit).check p.toTree

end DoWhile
