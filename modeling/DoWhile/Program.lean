import DoWhile.Tree

/-!
# Programs

The typed form of a program, as the grammar builds it: expressions over identifiers and numbers,
three kinds of statements, and a program as a list of them. Every node carries the position of its
first token. The types allow more than the grammar does (deeper expressions, declarations and
loops inside loop bodies), because names are resolved on all such programs.

`Program.toTree` forgets the typing; the name checker works on what it gives.
-/

set_option autoImplicit false

namespace DoWhile

/-- An expression: a name, a number, or two expressions joined by an operator. -/
inductive Expr where
  | identifier (name : String) (position : Position)
  | number (text : String) (position : Position)
  | binary (left : Expr) (operator : String) (right : Expr) (position : Position)
  deriving DecidableEq, Repr, Inhabited

namespace Expr

/-- Where an expression stands. -/
def position : Expr → Position
  | identifier _ p => p
  | number _ p => p
  | binary _ _ _ p => p

/-- The expression as a tree. -/
def toTree : Expr → Tree
  | identifier name p => .identifier name p
  | number text p => .number text p
  | binary left operator right p => .binary left.toTree operator right.toTree p

end Expr

/-- A statement: a declaration, an assignment or a loop. -/
inductive Stmt where
  | declaration (typeName name : String) (value : Expr) (position : Position)
  | assignment (target : String) (value : Expr) (position : Position)
  | loop (body : List Stmt) (condition : Expr) (position : Position)
  deriving Repr, Inhabited

namespace Stmt

mutual

/-- The statement as a tree. -/
def toTree : Stmt → Tree
  | declaration typeName name value p => .declaration typeName name value.toTree p
  | assignment target value p => .assignment target value.toTree p
  | loop body condition p => .loop (.sequence (toTrees body)) condition.toTree p

/-- Statements in order, each as a tree. -/
def toTrees : List Stmt → List Tree
  | [] => []
  | s :: ss => toTree s :: toTrees ss

end

end Stmt

/-- A program: its statements in order. -/
structure Program where
  statements : List Stmt
  deriving Repr, Inhabited

/-- A program as a loose tree. -/
def Program.toTree (p : Program) : Tree := .program (.sequence (Stmt.toTrees p.statements))

end DoWhile
