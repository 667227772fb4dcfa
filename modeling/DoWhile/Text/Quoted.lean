import DoWhile.Text.Printable

/-!
# Quoted text

A text is quoted in apostrophes, unless it holds an apostrophe and no quotation mark; then it is
quoted in quotation marks. Inside, the quote in use and the backslash are escaped, the three
common control characters have short escapes, and every other character that cannot be shown is
written by its code point in the fewest of two, four or eight hexadecimal digits.
-/

set_option autoImplicit false

namespace DoWhile.Text

/-- The single quote. -/
def apostrophe : Char := '\x27'

/-- The double quote. -/
def quotationMark : Char := '\x22'

/-- The backslash. -/
def backslash : Char := '\x5c'

/-- The number `n` in lower-case hexadecimal, filled with zeros to `width` digits. -/
def hex (width n : Nat) : List Char :=
  let digits := Nat.toDigits 16 n
  List.replicate (width - digits.length) '0' ++ digits

/-- The escape of a code point by four hexadecimal digits. -/
def unicodeEscape (n : Nat) : List Char := backslash :: 'u' :: hex 4 n

/-- The escape of a code point in the fewest digits. -/
def codePointEscape (n : Nat) : List Char :=
  if n < 0x100 then backslash :: 'x' :: hex 2 n
  else if n < 0x10000 then unicodeEscape n
  else backslash :: 'U' :: hex 8 n

/-- One character as it stands between quotes of the form `quote`. -/
def escaped (quote c : Char) : List Char :=
  if c = quote ∨ c = backslash then [backslash, c]
  else if c = '\n' then [backslash, 'n']
  else if c = '\r' then [backslash, 'r']
  else if c = '\t' then [backslash, 't']
  else if isPrintable c then [c]
  else codePointEscape c.toNat

/-- The quote that a text is put in. -/
def quoteFor (cs : List Char) : Char :=
  if apostrophe ∈ cs ∧ quotationMark ∉ cs then quotationMark else apostrophe

/-- A text between quotes. -/
def quoted (s : String) : String :=
  let quote := quoteFor s.toList
  String.ofList ([quote] ++ s.toList.flatMap (escaped quote) ++ [quote])

end DoWhile.Text
