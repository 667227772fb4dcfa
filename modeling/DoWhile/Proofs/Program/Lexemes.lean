import DoWhile.Program
import DoWhile.Proofs.Token.Spelling

/-!
# The lexemes of a program

Every program can be written down as a row of lexemes (`Program.lexemes`), whether the grammar
builds it or not. A well-formed program is one that the grammar builds from proper lexemes. Two
programs that agree up to the positions of their nodes have the same unplaced form
(`Program.unplaced`).
-/

set_option autoImplicit false

namespace DoWhile

namespace Expr

/-- An expression written down. -/
def lexemes : Expr → List Lexeme
  | identifier name _ => [⟨.identifier, name⟩]
  | number text _ => [⟨.number, text⟩]
  | binary left operator right _ => left.lexemes ++ ⟨.symbol, operator⟩ :: right.lexemes

/-- Is the expression a name or a number? -/
def isOperand : Expr → Bool
  | identifier _ _ => true
  | number _ _ => true
  | binary _ _ _ _ => false

/-- An operand, or two of them joined by a sign of arithmetic. -/
def isValue : Expr → Bool
  | identifier _ _ => true
  | number _ _ => true
  | binary left operator right _ =>
    left.isOperand && (operator == "+" || operator == "*") && right.isOperand

/-- Two operands joined by the sign of equality. -/
def isComparison : Expr → Bool
  | binary left operator right _ => left.isOperand && operator == "==" && right.isOperand
  | _ => false

/-- The expression with every node nowhere. -/
def unplaced : Expr → Expr
  | identifier name _ => identifier name Position.nowhere
  | number text _ => number text Position.nowhere
  | binary left operator right _ =>
    binary left.unplaced operator right.unplaced Position.nowhere

end Expr

namespace Stmt

mutual

/-- A statement written down. -/
def lexemes : Stmt → List Lexeme
  | declaration typeName name value _ =>
    ⟨.reserved, typeName⟩ :: ⟨.identifier, name⟩ :: ⟨.symbol, "="⟩ ::
      (value.lexemes ++ [⟨.symbol, ";"⟩])
  | assignment target value _ =>
    ⟨.identifier, target⟩ :: ⟨.symbol, "="⟩ :: (value.lexemes ++ [⟨.symbol, ";"⟩])
  | loop body condition _ =>
    ⟨.reserved, "do"⟩ :: ⟨.symbol, "\x7b"⟩ ::
      (lexemesAll body ++ ⟨.symbol, "\x7d"⟩ :: ⟨.reserved, "while"⟩ :: ⟨.symbol, "("⟩ ::
        (condition.lexemes ++ [⟨.symbol, ")"⟩, ⟨.symbol, ";"⟩]))

/-- Statements written down in order. -/
def lexemesAll : List Stmt → List Lexeme
  | [] => []
  | s :: ss => lexemes s ++ lexemesAll ss

end

mutual

/-- The statement with every node nowhere. -/
def unplaced : Stmt → Stmt
  | declaration typeName name value _ =>
    declaration typeName name value.unplaced Position.nowhere
  | assignment target value _ => assignment target value.unplaced Position.nowhere
  | loop body condition _ => loop (unplacedAll body) condition.unplaced Position.nowhere

/-- Statements in order with every node nowhere. -/
def unplacedAll : List Stmt → List Stmt
  | [] => []
  | s :: ss => unplaced s :: unplacedAll ss

end

/-- An assignment as the grammar builds it. -/
def isAssignment : Stmt → Bool
  | assignment _ value _ => value.isValue
  | _ => false

/-- A statement as the grammar builds it. -/
def isGrammatical : Stmt → Bool
  | declaration typeName _ value _ => typeName == "int" && value.isValue
  | assignment _ value _ => value.isValue
  | loop body condition _ => body.all isAssignment && condition.isComparison

end Stmt

namespace Program

/-- A program written down. -/
def lexemes (p : Program) : List Lexeme := Stmt.lexemesAll p.statements

/-- The program with every node nowhere: what is left of it when positions are disregarded. -/
def unplaced (p : Program) : Program := ⟨Stmt.unplacedAll p.statements⟩

/-- A program that the grammar builds, with identifiers and numbers that are spelled as such. -/
structure WellFormed (p : Program) : Prop where
  grammatical : p.statements.all Stmt.isGrammatical = true
  proper : ∀ x ∈ p.lexemes, x.isProper = true

end Program

end DoWhile
