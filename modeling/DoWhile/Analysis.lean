import DoWhile.Checker
import DoWhile.Parse.Grammar
import DoWhile.Token.Cursor

/-!
# The analysis of a text

An analysis scans a text, parses its tokens and checks the names of the program that was read. It
keeps the result of every stage, and the events that the stages logged, in order. The diagnostics
of the grammar come before those of the names.
-/

set_option autoImplicit false

namespace DoWhile

/-- Everything that was found out about a text. -/
structure Analysis where
  source : String
  tokens : List Token
  program : Program
  syntaxErrors : List Diagnostic
  symbols : SymbolTable
  namingErrors : List Diagnostic
  log : List Event
  deriving Repr, Inhabited

/-- All diagnostics of an analysis: those of the grammar, then those of the names. -/
def Analysis.diagnostics (a : Analysis) : List Diagnostic := a.syntaxErrors ++ a.namingErrors

/-- Analyses a text, with the names that need no declaration given. -/
def analyze (implicit : List String) (source : String) : Analysis :=
  let scanned := (Cursor.start source).scanAll
  let parsed := parse scanned.tokens
  let checked := (parsed.program.check implicit).checker
  { source := source
    tokens := scanned.tokens
    program := parsed.program
    syntaxErrors := parsed.errors
    symbols := checked.table
    namingErrors := checked.errors
    log := scanned.log ++ parsed.log ++ checked.log
      ++ [.finished scanned.tokens.length parsed.errors.length checked.errors.length] }

end DoWhile
