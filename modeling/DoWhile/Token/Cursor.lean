import DoWhile.Event

/-!
# The cursor of a scan

A cursor stands in a text: it holds the characters still to be read, how many were read before
them, and the position of the first of them. It only moves forward. Reading a token skips blanks
and then takes the longest lexeme that begins there (`Lexeme.longest`); a reading at the end of
the text gives the end-of-input token, however often it is repeated.

`Cursor.next_rest_lt` is the progress fact under the whole scan: a token other than the end of the
input shortens the text.
-/

set_option autoImplicit false

namespace DoWhile

/-! ## The longest lexeme -/

/-- The longest lexeme that begins with `c` when `rest` follows it, and what is left of `rest`.
A word or a number runs as far as its characters do, two equals signs are one symbol, and any
other character stands alone. -/
def Lexeme.longest (c : Char) (rest : List Char) : Lexeme × List Char :=
  if isLetter c then
    (.ofWord (String.ofList (c :: rest.takeWhile isWordChar)), rest.dropWhile isWordChar)
  else if isDigit c then
    (⟨.number, String.ofList (c :: rest.takeWhile isDigit)⟩, rest.dropWhile isDigit)
  else if c = '=' ∧ rest.head? = some '=' then
    (⟨.symbol, "=="⟩, rest.tail)
  else
    (⟨if c ∈ symbolChars then .symbol else .error, String.singleton c⟩, rest)

/-- Taking a lexeme never lengthens what follows it. -/
theorem Lexeme.length_longest_le (c : Char) (rest : List Char) :
    (longest c rest).2.length ≤ rest.length := by
  unfold longest
  split
  · exact (List.dropWhile_suffix _).length_le
  · split
    · exact (List.dropWhile_suffix _).length_le
    · split
      · simp
      · exact Nat.le_refl _

/-! ## The cursor -/

/-- A place in a text together with the text that follows it. -/
structure Cursor where
  rest : List Char
  index : Nat
  position : Position
  deriving DecidableEq, Repr, Inhabited

namespace Cursor

/-- The cursor at the beginning of a text. -/
def start (source : String) : Cursor := ⟨source.toList, 0, Position.start⟩

/-- Is nothing left to read? -/
def atEnd (c : Cursor) : Bool := c.rest.isEmpty

/-- The next character, if there is one. -/
def peek? (c : Cursor) : Option Char := c.rest.head?

/-- Is the next character the whole of `expected`? -/
def peekIs (c : Cursor) (expected : String) : Bool :=
  match c.peek? with
  | some ch => String.singleton ch == expected
  | none => false

/-- The cursor after it has read the characters `taken`, which leaves `rest`. -/
def past (c : Cursor) (taken rest : List Char) : Cursor :=
  ⟨rest, c.index + taken.length, c.position.afterAll taken⟩

/-- Reads one character, if there is one. -/
def advance? (c : Cursor) : Option (Char × Cursor) :=
  match c.rest with
  | [] => none
  | ch :: rest => some (ch, c.past [ch] rest)

/-- Moves past the blanks in front of the cursor. -/
def skipBlanks (c : Cursor) : Cursor :=
  c.past (c.rest.takeWhile isBlank) (c.rest.dropWhile isBlank)

/-- What one reading gives: a token, the cursor behind it, and what was noted on the way. -/
structure Reading where
  token : Token
  cursor : Cursor
  log : List Event
  deriving DecidableEq, Repr, Inhabited

/-- Reads one token. A character outside the alphabet becomes an error token and is noted. -/
def next (c : Cursor) : Reading :=
  let here := c.skipBlanks
  match here.rest with
  | [] => ⟨Token.endAt here.position, here, []⟩
  | ch :: rest =>
    let (lexeme, left) := Lexeme.longest ch rest
    ⟨⟨lexeme, here.position⟩, here.past lexeme.literal.toList left,
      if lexeme.kind = .error then [.unrecognized ch here.position] else []⟩

/-- A token other than the end of the input shortens the text. -/
theorem next_rest_lt (c : Cursor) (h : c.next.token.isEnd = false) :
    c.next.cursor.rest.length < c.rest.length := by
  have hskip : c.skipBlanks.rest.length ≤ c.rest.length :=
    (List.dropWhile_suffix _).length_le
  unfold next at h ⊢
  dsimp only at h ⊢
  split at h
  · simp [Token.isEnd, Token.endAt, Lexeme.endOfInput] at h
  · next ch rest hrest =>
    have hlong := Lexeme.length_longest_le ch rest
    rw [hrest] at hskip
    simp only [List.length_cons] at hskip
    simp only [past]
    omega

/-! ## The whole scan -/

/-- What a scan to the end gives. -/
structure Scan where
  tokens : List Token
  cursor : Cursor
  log : List Event
  deriving DecidableEq, Repr, Inhabited

/-- Reads tokens up to and with the end of the input. -/
def readAll (c : Cursor) : Scan :=
  let r := c.next
  if _h : r.token.isEnd then ⟨[r.token], r.cursor, r.log⟩
  else
    let s := readAll r.cursor
    ⟨r.token :: s.tokens, s.cursor, r.log ++ s.log⟩
termination_by c.rest.length
decreasing_by exact next_rest_lt c (by simpa using _h)

/-- Scans from the cursor to the end of the text and notes how much was read. -/
def scanAll (c : Cursor) : Scan :=
  let s := c.readAll
  { s with log := s.log ++ [.scanned s.tokens.length s.cursor.position.line] }

end Cursor

/-- All tokens of a text; the last one, and no other, is the end of the input. -/
def scan (source : String) : List Token := (Cursor.start source).scanAll.tokens

end DoWhile
