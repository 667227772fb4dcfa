import DoWhile.Parse.Grammar

/-!
# Calls on one parse

The parses of the grammar can be called one by one on a token list, in any order and at whatever
token the call before left off. A call and its answer are data, so a history of calls is a list.
The session keeps every diagnostic raised so far.
-/

set_option autoImplicit false

namespace DoWhile

/-- A token list that is being read call by call. -/
structure Session where
  tokens : List Token
  feed : Feed
  errors : List Diagnostic
  deriving DecidableEq, Repr, Inhabited

namespace Session

/-- The calls that a parser answers. -/
inductive Call where
  | current
  | peek
  | advance
  | atEnd
  | program
  | declaration
  | assignment
  | loop
  | condition
  | operand
  | expression
  | comparison
  | expect (literal : String) (wanted : Expectation)
  | expectKind (kind : Token.Kind) (wanted : Expectation)
  | peekIs (literal : String)
  | tokenAt (index : Nat)
  | complain (text : String)
  | hold
  deriving DecidableEq, Repr, Inhabited

/-- What a parser answers to a call. -/
inductive Answer where
  | token (value : Token)
  | truth (value : Bool)
  | expr (value : Option Expr)
  | stmt (value : Option Stmt)
  | program (value : Program)
  | done
  deriving Repr, Inhabited

/-- A session at the beginning of a token list. -/
def start (tokens : List Token) : Session := ⟨closed tokens, Feed.ofTokens tokens, []⟩

/-- The place of the token under examination in the token list. -/
def index (s : Session) : Nat := s.tokens.length - 1 - s.feed.following.length

/-- The token at a place of the list; beyond its end, the last one. -/
def tokenAt (s : Session) (i : Nat) : Token := s.tokens.getD i (s.tokens.getLastD s.feed.current)

/-- The session after a reading that left `feed` and `notes`. -/
def after (s : Session) (feed : Feed) (notes : Notes) : Session :=
  { s with feed := feed, errors := s.errors ++ notes.errors }

/-- Runs a parse in a session. -/
def read {α : Type} (s : Session) (p : Parse α) (answer : Option α → Answer) : Answer × Session :=
  let o := p.run s.feed
  (answer o.value, s.after o.feed o.notes)

/-- The answer to one call and the session after it. -/
def run (s : Session) : Call → Answer × Session
  | .current => (.token s.feed.current, s)
  | .peek => (.token s.feed.peek, s)
  | .advance => s.read Parse.advance (fun _ => .done)
  | .atEnd => (.truth s.feed.atEnd, s)
  | .program =>
    let r := Parse.statements (Parse.allowance s.tokens.length) s.feed
    (.program ⟨r.items⟩, s.after r.feed r.notes)
  | .declaration => s.read Parse.declaration .stmt
  | .assignment => s.read Parse.assignment .stmt
  | .loop => s.read Parse.loop .stmt
  | .condition => s.read Parse.condition .expr
  | .operand => s.read Parse.operand .expr
  | .expression => s.read Parse.expression .expr
  | .comparison => s.read Parse.comparison .expr
  | .expect literal wanted => s.read (Parse.expect literal wanted) (fun v => .truth v.isSome)
  | .expectKind kind wanted => s.read (Parse.expectKind kind wanted) (fun v => .truth v.isSome)
  | .peekIs literal => (.truth (s.feed.peekIs literal), s)
  | .tokenAt i => (.token (s.tokenAt i), s)
  | .complain text => s.read (Parse.complain (.remark text)) (fun _ => .done)
  | .hold => (.done, { s with feed := { s.feed with held := true } })

/-- The answers to a list of calls, each with the session that it left. -/
def runAll (s : Session) : List Call → List (Answer × Session)
  | [] => []
  | call :: calls =>
    let step := s.run call
    step :: runAll step.2 calls

end Session

end DoWhile
