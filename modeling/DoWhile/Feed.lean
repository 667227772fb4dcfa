import DoWhile.Token

/-!
# Token feeds

A feed is a window on a token list: the token under examination and the tokens that follow it.
It only moves forward, one token at a time, and stays on the last token. Token lists are closed
with an end token before they are read (`closed`), so the last token is an end token.

A feed can be held; a held feed never moves.
-/

set_option autoImplicit false

namespace DoWhile

/-- The end token that a list lacks: none if the list ends in one already, and else one right
behind the last token. -/
def missingEnd (tokens : List Token) : List Token :=
  match tokens.getLast? with
  | none => [Token.endAt Position.start]
  | some t =>
    if t.isEnd then []
    else [Token.endAt ⟨t.position.line, t.position.column + t.literal.length⟩]

/-- A token list that ends in an end token. -/
def closed (tokens : List Token) : List Token := tokens ++ missingEnd tokens

/-- The token under examination and those that follow it. -/
structure Feed where
  current : Token
  following : List Token
  held : Bool := false
  deriving DecidableEq, Repr, Inhabited

namespace Feed

/-- The feed on the first token of a token list. -/
def ofTokens (tokens : List Token) : Feed :=
  match closed tokens with
  | [] => ⟨Token.endAt Position.start, [], false⟩
  | t :: ts => ⟨t, ts, false⟩

/-- The token after the current one; at the last token, the last token itself. -/
def peek (f : Feed) : Token := f.following.headD f.current

/-- Moves on by one token, if there is one and the feed is not held. -/
def advance (f : Feed) : Feed :=
  if f.held then f
  else
    match f.following with
    | [] => f
    | t :: ts => ⟨t, ts, false⟩

/-- Is the current token the end of the input? -/
def atEnd (f : Feed) : Bool := f.current.isEnd

/-- Is the next token the symbol or reserved word `literal`? -/
def peekIs (f : Feed) (literal : String) : Bool := f.peek.isMark literal

/-- The feed on the first of the tokens `t :: ts` that is an end token or has the text `literal`,
and on the last of them if there is none. -/
def seek (literal : String) (t : Token) : List Token → Feed
  | [] => ⟨t, [], false⟩
  | u :: us => if t.isEnd || t.literal == literal then ⟨t, u :: us, false⟩ else seek literal u us

/-- Moves on to the next token that is an end token or has the text `literal`. -/
def skipTo (literal : String) (f : Feed) : Feed :=
  if f.held then f else seek literal f.current f.following

/-- Moves past a condition that could not be read: to its closing parenthesis, and onto the
semicolon behind that, if one is there. -/
def pastCondition (f : Feed) : Feed :=
  let g := f.skipTo ")"
  if g.current.literal == ")" && g.peekIs ";" then g.advance else g

end Feed

end DoWhile
