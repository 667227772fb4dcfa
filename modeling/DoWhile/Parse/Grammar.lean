import DoWhile.Parse
import DoWhile.Program

/-!
# The grammar

    program     = statement*
    statement   = declaration | assignment | loop
    declaration = "int" identifier "=" expression ";"
    assignment  = identifier "=" expression ";"
    loop        = "do" "{" assignment* "}" "while" "(" comparison ")" ";"
    expression  = operand | operand ("+" | "*") operand
    comparison  = operand "==" operand
    operand     = identifier | number

Each parse begins with the first token of its construct under examination and, when it succeeds,
ends with the last one under examination; the caller moves past it. A construct that cannot be
read is given up with a diagnostic, and reading goes on behind the token at which it stopped. Two
places look for a better one: a loop without its opening brace goes on at its condition, and a
condition that cannot be read goes on behind its closing parenthesis.
-/

set_option autoImplicit false

namespace DoWhile

namespace Parse

/-! ## Expressions -/

/-- Reads an identifier or a number. -/
def operand : Parse Expr := do
  let t ← current
  match t.kind with
  | .identifier => return .identifier t.literal t.position
  | .number => return .number t.literal t.position
  | _ => reject (.expected .operand t.toLexeme)

/-- Is the lexeme one of the two operators of expressions? -/
def isArithmetic (l : Lexeme) : Bool := l.kind = .symbol && (l.literal == "+" || l.literal == "*")

/-- Reads an operand, or two of them joined by a sign of arithmetic. -/
def expression : Parse Expr := do
  let left ← operand
  if isArithmetic (← peek).toLexeme then
    advance
    let sign ← current
    advance
    let right ← operand
    return .binary left sign.literal right left.position
  else
    return left

/-- Reads two operands joined by the sign of equality. -/
def comparison : Parse Expr := do
  let left ← operand
  expect "==" .comparisonSign
  advance
  let right ← operand
  return .binary left "==" right left.position

/-! ## Statements -/

/-- Reads a declaration: type, name, `=`, value and `;`. -/
def declaration : Parse Stmt := do
  let first ← current
  expectKind .identifier .variableName
  let name ← current
  expect "=" (.equalsAfterVariable name.literal)
  advance
  let value ← expression
  expect ";" .semicolonAfterDeclaration
  return .declaration first.literal name.literal value first.position

/-- Reads an assignment: name, `=`, value and `;`. -/
def assignment : Parse Stmt := do
  let first ← current
  expect "=" (.equalsAfterTarget first.literal)
  advance
  let value ← expression
  expect ";" .semicolonAfterAssignment
  return .assignment first.literal value first.position

/-- Reads the condition of a loop, from the word before it to the semicolon behind it. -/
def condition : Parse Expr := do
  expect "(" .openingParenthesis
  advance
  let test ← comparison.orMove Feed.pastCondition
  expect ")" .closingParenthesis
  expect ";" .semicolonAfterLoop
  return test

/-- Does an assignment begin at the feed? -/
def startsAssignment (f : Feed) : Bool := f.current.kind = .identifier && f.peekIs "="

/-- Reads one item of a loop body, which has to be an assignment. -/
def bodyItem : Parse Stmt := fun f =>
  if startsAssignment f then assignment f
  else reject (.expected .bodyAssignment f.current.toLexeme) f

end Parse

/-- What reading a row of statements gives: those that could be read, the feed behind the row, and
the notes of all. -/
structure Stretch where
  items : List Stmt
  feed : Feed
  notes : Notes
  deriving Repr, Inhabited

namespace Parse

/-- Reads the items of a loop body up to its closing brace. An item that fails on a closing brace
ends the body there. -/
def body (f : Feed) : Stretch :=
  if f.atEnd || f.current.literal == "\x7d" then ⟨[], f, Notes.none⟩
  else
    let item := bodyItem f
    if item.value.isNone && item.feed.current.literal == "\x7d" then ⟨[], item.feed, item.notes⟩
    else
      let g := item.feed.advance
      if _h : g.following.length < f.following.length then
        let rest := body g
        ⟨item.value.toList ++ rest.items, rest.feed, item.notes ++ rest.notes⟩
      else
        ⟨item.value.toList, g, item.notes⟩
termination_by f.following.length

/-- Reads a loop body with its closing brace. -/
def closedBody : Parse (List Stmt) := do
  let items ← (fun f => let s := body f; ⟨some s.items, s.feed, s.notes⟩ : Parse (List Stmt))
  if (← current).literal == "\x7d" then return items
  else reject (.expected .closingBrace Lexeme.endOfInput)

/-- Goes on to the word before the condition of a loop that lacks its body; there may be none. -/
def seekCondition : Parse Unit := do
  move (Feed.skipTo "while")
  if (← current).isEnd then fail

/-- Reads a loop: the body in braces and its condition. Without the opening brace the body is empty,
and the condition is looked for. -/
def loop : Parse Stmt := do
  let first ← current
  if ← (expect "\x7b" .openingBrace).succeeds then
    advance
    let items ← closedBody
    expect "while" .whileAfterBody
    let test ← condition
    return .loop items test first.position
  else
    seekCondition
    let test ← condition
    return .loop [] test first.position

/-- Reads the statement that begins at the feed, told by its first token. -/
def statement : Parse Stmt := fun f =>
  if f.current.literal == "int" then declaration f
  else if f.current.literal == "do" then loop f
  else if startsAssignment f then assignment f
  else reject (.unexpected f.current.toLexeme) f

/-- Reads statements up to the end of the input, in at most `rounds` rounds. -/
def statements (rounds : Nat) (f : Feed) : Stretch :=
  if f.atEnd then ⟨[], f, Notes.none⟩
  else
    match rounds with
    | 0 => ⟨[], f, Notes.one ⟨.grammar, .tooManyRounds, f.current.position⟩⟩
    | rounds + 1 =>
      let one := statement f
      let rest := statements rounds one.feed.advance
      ⟨one.value.toList ++ rest.items, rest.feed, one.notes ++ rest.notes⟩

/-- The number of rounds allowed for a token list of the given length. -/
def allowance (tokens : Nat) : Nat := 2 * tokens

end Parse

/-- What parsing a token list gives. -/
structure Parsed where
  program : Program
  errors : List Diagnostic
  log : List Event
  deriving Repr, Inhabited

/-- Parses a token list, which is closed with an end token if it lacks one. -/
def parse (tokens : List Token) : Parsed :=
  let s := Parse.statements (Parse.allowance (closed tokens).length) (Feed.ofTokens tokens)
  ⟨⟨s.items⟩, s.notes.errors,
    s.notes.log ++ [.parsed s.items.length s.notes.errors.length]⟩

end DoWhile
