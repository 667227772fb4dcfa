import DoWhile.Diagnostic
import DoWhile.Text.Quoted

/-!
# Events of an analysis

Each stage records what it does as a list of events, in the order in which it does it. An event
holds facts, and `Event.message` words them; the time that an analysis took is not a fact of the
library, so its text is handed to the wording from outside.
-/

set_option autoImplicit false

namespace DoWhile

/-- Something a stage did. -/
inductive Event where
  | unrecognized (character : Char) (position : Position)
  | scanned (tokens : Nat) (lines : Int)
  | reported (diagnostic : Diagnostic)
  | parsed (statements errors : Nat)
  | checked (symbols errors : Nat)
  | finished (tokens syntaxErrors namingErrors : Nat)
  deriving DecidableEq, Repr, Inhabited

/-- The wording of an event, where `elapsed` is the text of the time that the analysis took. -/
def Event.message (elapsed : String) : Event → String
  | unrecognized c p =>
    "unrecognized character " ++ Text.quoted (String.singleton c) ++ " at " ++ p.text
  | scanned tokens lines =>
    "scanned " ++ toString tokens ++ " tokens over " ++ toString lines ++ " lines"
  | reported d => d.origin.name ++ " error at " ++ d.position.text ++ ": " ++ d.message
  | parsed statements errors =>
    "parsed " ++ toString statements ++ " statements with " ++ toString errors ++ " syntax errors"
  | checked symbols errors =>
    "checked program: " ++ toString symbols ++ " symbols, " ++ toString errors ++ " semantic errors"
  | finished tokens syntaxErrors namingErrors =>
    "analysis finished in " ++ elapsed ++ " ms: " ++ toString tokens ++ " tokens, "
      ++ toString syntaxErrors ++ " syntax errors, " ++ toString namingErrors ++ " semantic errors"

end DoWhile
