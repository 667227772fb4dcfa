import DoWhile.Token.Cursor
import DoWhile.Fault

/-!
# Calls on one cursor

A cursor can be driven call by call: tokens, single characters and whole scans in any order. A
call and its answer are data, so a history of calls is a list. Looking at or reading a character
at the end of the text is a fault that leaves the cursor where it is.
-/

set_option autoImplicit false

namespace DoWhile.Cursor

/-- The calls that a scanner answers. -/
inductive Call where
  | next
  | scanAll
  | skipBlanks
  | advance
  | peek
  | atEnd
  | peekIs (expected : String)
  deriving DecidableEq, Repr, Inhabited

/-- What a scanner answers to a call. -/
inductive Answer where
  | token (value : Token)
  | tokens (value : List Token)
  | character (value : Char)
  | truth (value : Bool)
  | done
  deriving DecidableEq, Repr, Inhabited

/-- The answer to one call and the cursor after it. -/
def run (c : Cursor) : Call → Except Fault Answer × Cursor
  | .next => let r := c.next; (.ok (.token r.token), r.cursor)
  | .scanAll => let s := c.scanAll; (.ok (.tokens s.tokens), s.cursor)
  | .skipBlanks => (.ok .done, c.skipBlanks)
  | .advance =>
    match c.advance? with
    | some (ch, c') => (.ok (.character ch), c')
    | none => (.error .pastEnd, c)
  | .peek =>
    match c.peek? with
    | some ch => (.ok (.character ch), c)
    | none => (.error .pastEnd, c)
  | .atEnd => (.ok (.truth c.atEnd), c)
  | .peekIs expected => (.ok (.truth (c.peekIs expected)), c)

/-- The answers to a list of calls, each with the cursor that it left. -/
def runAll (c : Cursor) : List Call → List (Except Fault Answer × Cursor)
  | [] => []
  | call :: calls =>
    let step := c.run call
    step :: runAll step.2 calls

end DoWhile.Cursor
