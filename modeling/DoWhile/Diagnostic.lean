import DoWhile.Token

/-!
# Diagnostics

A diagnostic is a complaint at a position, marked with the stage that raised it. Complaints are
causes: what was wanted, what was found, which name is at fault. The wording is one function on
causes, `Complaint.message`, so no other part of the library writes an error text.
-/

set_option autoImplicit false

namespace DoWhile

/-- What the grammar asked for at the point where reading stopped. -/
inductive Expectation where
  | variableName
  | equalsAfterVariable (name : String)
  | semicolonAfterDeclaration
  | equalsAfterTarget (target : String)
  | semicolonAfterAssignment
  | operand
  | comparisonSign
  | openingBrace
  | bodyAssignment
  | closingBrace
  | whileAfterBody
  | openingParenthesis
  | closingParenthesis
  | semicolonAfterLoop
  | other (text : String)
  deriving DecidableEq, Repr, Inhabited

/-- The words for what was asked for. -/
def Expectation.text : Expectation → String
  | variableName => "variable name after 'int'"
  | equalsAfterVariable name => "'=' after variable '" ++ name ++ "'"
  | semicolonAfterDeclaration => "';' after variable declaration"
  | equalsAfterTarget target => "'=' after '" ++ target ++ "'"
  | semicolonAfterAssignment => "';' after assignment"
  | operand => "identifier or number"
  | comparisonSign => "'==' in loop condition"
  | openingBrace => "'\x7b' after 'do'"
  | bodyAssignment => "assignment in loop body"
  | closingBrace => "'\x7d' to close loop body"
  | whileAfterBody => "'while' after loop body"
  | openingParenthesis => "'(' after 'while'"
  | closingParenthesis => "')' after loop condition"
  | semicolonAfterLoop => "';' after do-while loop"
  | other text => text

/-- Why a program is not accepted. -/
inductive Complaint where
  | unexpected (found : Lexeme)
  | expected (wanted : Expectation) (found : Lexeme)
  | tooManyRounds
  | alreadyDeclared (name : String)
  | usedBeforeDeclared (name : String)
  | remark (text : String)
  deriving DecidableEq, Repr, Inhabited

/-- The text of a complaint. -/
def Complaint.message : Complaint → String
  | unexpected found => "Unexpected token " ++ found.describe
  | expected wanted found => "Expected " ++ wanted.text ++ ", got " ++ found.describe
  | tooManyRounds => "Too many iterations, possible infinite loop; parsing stopped"
  | alreadyDeclared name => "Variable '" ++ name ++ "' already declared"
  | usedBeforeDeclared name => "Variable '" ++ name ++ "' used before declared"
  | remark text => text

/-- The stage that raised a diagnostic. -/
inductive Origin where
  | general
  | grammar
  | naming
  deriving DecidableEq, Repr, Inhabited

namespace Origin

/-- The name under which a stage signs its diagnostics. -/
def name : Origin → String
  | general => "diagnostic"
  | grammar => "syntax"
  | naming => "semantic"

/-- The name of a stage in capitals, as the printed listing shows it. -/
def banner : Origin → String
  | general => "DIAGNOSTIC"
  | grammar => "SYNTAX"
  | naming => "SEMANTIC"

end Origin

/-- A complaint at a place, signed by the stage that raised it. -/
structure Diagnostic where
  origin : Origin
  complaint : Complaint
  position : Position
  deriving DecidableEq, Repr, Inhabited

namespace Diagnostic

/-- The text of a diagnostic is the text of its complaint. -/
def message (d : Diagnostic) : String := d.complaint.message

/-- Two diagnostics say the same if they agree in stage, wording and place. -/
def same (a b : Diagnostic) : Bool :=
  a.origin = b.origin && a.message == b.message && a.position = b.position

end Diagnostic

end DoWhile
