import DoWhile.Checker
import DoWhile.Parse.Grammar
import DoWhile.Token.Cursor

/-!
# Calls on one checker

A checker can be used for several programs and for parts of them; its table and its diagnostics
accumulate. A call is data, so a history of calls is a list. A call that ends in a fault leaves
the checker with the work done before the fault, and later calls go on from there.
-/

set_option autoImplicit false

namespace DoWhile.Checker

/-- One call on a checker. -/
inductive Call where
  | check (program : Tree)
  | checkSource (source : String)
  | collect (statements : Tree)
  | verify (statements : Tree)
  | verifyExpr (expression : Tree)
  | verifyName (name : String) (position : Position)
  deriving Repr, Inhabited

/-- The checker after one call, and the fault that ended the call, if one did. -/
def run (c : Checker) : Call → Progress
  | .check program => c.check program
  | .checkSource source => c.check (parse (scan source)).program.toTree
  | .collect statements => collect statements c
  | .verify statements => verify statements c
  | .verifyExpr expression => verifyExpr expression c
  | .verifyName name p => ⟨c.verifyName name p, none⟩

/-- The progress after each of a list of calls. -/
def runAll (c : Checker) : List Call → List Progress
  | [] => []
  | call :: calls =>
    let p := c.run call
    p :: runAll p.checker calls

end DoWhile.Checker
