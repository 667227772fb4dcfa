import DoWhile.Analysis

/-!
# Reports

A report flattens an analysis into rows: one for each token, diagnostic and symbol, and the number
of tokens of each category. End tokens have a row and are counted nowhere.
-/

set_option autoImplicit false

namespace DoWhile

/-- How many tokens there are of each category, and in all. -/
structure TokenCounts where
  reserved : Nat
  identifier : Nat
  number : Nat
  symbol : Nat
  error : Nat
  total : Nat
  deriving DecidableEq, Repr, Inhabited

/-! ## Counting tokens -/

/-- The kinds of tokens that are counted. -/
def countedKinds : List Token.Kind := [.reserved, .identifier, .number, .symbol, .error]

/-- A count in progress: the number of tokens of each category, and of all tokens. -/
structure Tally where
  counts : List (String × Nat)
  total : Nat
  deriving DecidableEq, Repr, Inhabited

namespace Tally

/-- No token of any counted category. -/
def start : Tally := ⟨countedKinds.map fun k => (k.category, 0), 0⟩

/-- Counts one token; an end token does not count. -/
def count (t : Tally) (token : Token) : Tally :=
  if token.isEnd then t
  else
    { counts := t.counts.map fun c => if c.1 = token.kind.category then (c.1, c.2 + 1) else c
      total := t.total + 1 }

/-- The number of tokens of a category so far. -/
def ofCategory (t : Tally) (category : String) : Nat := (t.counts.lookup category).getD 0

end Tally

/-- Counts tokens one by one. -/
def TokenCounts.ofTokens (tokens : List Token) : TokenCounts :=
  let tally := tokens.foldl Tally.count Tally.start
  { reserved := tally.ofCategory "reserved"
    identifier := tally.ofCategory "identifier"
    number := tally.ofCategory "number"
    symbol := tally.ofCategory "symbol"
    error := tally.ofCategory "error"
    total := tally.total }

/-! ## Rows -/

/-- A token as a report shows it. -/
structure TokenRow where
  kind : String
  literal : String
  line : Int
  column : Int
  category : String
  deriving DecidableEq, Repr, Inhabited

/-- The row of a token. -/
def TokenRow.ofToken (t : Token) : TokenRow :=
  ⟨t.kind.name, t.literal, t.position.line, t.position.column, t.kind.category⟩

/-- A diagnostic as a report shows it. -/
structure ErrorRow where
  origin : String
  message : String
  line : Int
  column : Int
  deriving DecidableEq, Repr, Inhabited

/-- The row of a diagnostic. -/
def ErrorRow.ofDiagnostic (d : Diagnostic) : ErrorRow :=
  ⟨d.origin.name, d.message, d.position.line, d.position.column⟩

/-- A symbol as a report shows it. -/
structure SymbolRow where
  name : String
  type : String
  value : Json
  line : Int
  column : Int
  deriving Repr, Inhabited

/-- The row of a symbol. -/
def SymbolRow.ofSymbol (s : Symbol) : SymbolRow :=
  ⟨s.name, s.typeName, s.value, s.position.line, s.position.column⟩

/-- An analysis in rows. -/
structure Report where
  source : String
  tokens : List TokenRow
  counts : TokenCounts
  errors : List ErrorRow
  symbols : List SymbolRow
  deriving Repr, Inhabited

/-- The report of an analysis. -/
def Analysis.report (a : Analysis) : Report :=
  { source := a.source
    tokens := a.tokens.map TokenRow.ofToken
    counts := TokenCounts.ofTokens a.tokens
    errors := a.diagnostics.map ErrorRow.ofDiagnostic
    symbols := a.symbols.symbols.map SymbolRow.ofSymbol }

/-! ## The JSON form -/

namespace TokenCounts

/-- The counts as they are written out. -/
def toJson (c : TokenCounts) : Json :=
  .object [("reserved", .integer c.reserved), ("identifier", .integer c.identifier),
    ("number", .integer c.number), ("symbol", .integer c.symbol), ("error", .integer c.error),
    ("total", .integer c.total)]

end TokenCounts

/-- The row of a token as it is written out. -/
def TokenRow.toJson (r : TokenRow) : Json :=
  .object [("kind", .string r.kind), ("literal", .string r.literal), ("line", .integer r.line),
    ("column", .integer r.column), ("category", .string r.category)]

/-- The row of a diagnostic as it is written out. -/
def ErrorRow.toJson (r : ErrorRow) : Json :=
  .object [("origin", .string r.origin), ("message", .string r.message), ("line", .integer r.line),
    ("column", .integer r.column)]

/-- A symbol row as a JSON object. -/
def SymbolRow.toJson (r : SymbolRow) : Json :=
  .object [("name", .string r.name), ("type", .string r.type), ("value", r.value),
    ("line", .integer r.line), ("column", .integer r.column)]

/-- A report as a JSON object. -/
def Report.toJson (r : Report) : Json :=
  .object [("source", .string r.source), ("tokens", .array (r.tokens.map TokenRow.toJson)),
    ("token_counts", r.counts.toJson), ("errors", .array (r.errors.map ErrorRow.toJson)),
    ("symbols", .array (r.symbols.map SymbolRow.toJson))]

end DoWhile
