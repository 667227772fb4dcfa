import DoWhile.Position

/-!
# Tokens of the do-while language

A lexeme is a kind together with the text it was read from; a token is a lexeme at a position.
The alphabet is small: words over ASCII letters, digits and underscore, numbers over ASCII digits,
nine symbols, and four blank characters between them. Three words are reserved.
-/

set_option autoImplicit false

namespace DoWhile

/-! ## The alphabet -/

/-- Characters that may begin a word. -/
def isLetter (c : Char) : Bool :=
  ('a' ≤ c && c ≤ 'z') || ('A' ≤ c && c ≤ 'Z') || c == '_'

/-- Characters of a number. -/
def isDigit (c : Char) : Bool := '0' ≤ c && c ≤ '9'

/-- Characters that may follow the first one of a word. -/
def isWordChar (c : Char) : Bool := isLetter c || isDigit c

/-- Characters that stand between tokens and belong to none. -/
def isBlank (c : Char) : Bool := c == ' ' || c == '\t' || c == '\r' || c == '\n'

/-- The characters that are a symbol by themselves. -/
def symbolChars : List Char := ['=', '+', '*', ';', '\x7b', '\x7d', '(', ')']

/-- The words that no variable may be called. -/
def reservedWords : List String := ["int", "do", "while"]

/-! ## Kinds -/

/-- The kinds of tokens. -/
inductive Token.Kind where
  | reserved
  | identifier
  | number
  | symbol
  | endOfInput
  | error
  deriving DecidableEq, Repr, Inhabited

namespace Token.Kind

/-- The short name of a kind, as reports spell it. -/
def name : Token.Kind → String
  | reserved => "RESERVED"
  | identifier => "IDENT"
  | number => "NUMBER"
  | symbol => "SYMBOL"
  | endOfInput => "EOF"
  | error => "ERROR"

/-- The category under which a kind is shown and counted. -/
def category : Token.Kind → String
  | reserved => "reserved"
  | identifier => "identifier"
  | number => "number"
  | symbol => "symbol"
  | endOfInput => "eof"
  | error => "error"

/-- All kinds, each once. -/
def all : List Token.Kind := [reserved, identifier, number, symbol, endOfInput, error]

/-- The kind with the given short name. -/
def ofName? (name : String) : Option Token.Kind := all.find? (fun k => k.name == name)

end Token.Kind

/-! ## Lexemes and tokens -/

/-- A piece of text together with what it is. -/
structure Lexeme where
  kind : Token.Kind
  literal : String
  deriving DecidableEq, Repr, Inhabited

namespace Lexeme

/-- The lexeme at the end of a source. -/
def endOfInput : Lexeme := ⟨.endOfInput, ""⟩

/-- How a diagnostic speaks of a lexeme: by its text in quotes, or as the end of the input. -/
def describe (l : Lexeme) : String :=
  if l.kind = .endOfInput then "end of input" else "'" ++ l.literal ++ "'"

/-- Does the lexeme stand for the symbol or reserved word `literal`? -/
def isMark (l : Lexeme) (literal : String) : Bool :=
  (l.kind = .symbol || l.kind = .reserved) && l.literal == literal

/-- The lexeme of a word: reserved words are told from identifiers by their spelling alone. -/
def ofWord (word : String) : Lexeme :=
  ⟨if word ∈ reservedWords then .reserved else .identifier, word⟩

end Lexeme

/-- A lexeme at a place. -/
structure Token extends Lexeme where
  position : Position
  deriving DecidableEq, Repr, Inhabited

namespace Token

/-- The end of the input, at a position. -/
def endAt (p : Position) : Token := ⟨.endOfInput, p⟩

/-- Is the token the end of the input? -/
def isEnd (t : Token) : Bool := t.kind = .endOfInput

end Token

end DoWhile
