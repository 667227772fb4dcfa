import DoWhile.Text.Space

/-!
# Reading and writing integers

An integer may be written with white space around it, a sign in front, zeros at its head, and
single underscores between digits. The digits may be those of any script that writes decimal
numbers with ten digits in a row. It is written out in plain decimal, if it has no more than
`maxDigits` digits.
-/

set_option autoImplicit false

namespace DoWhile.Text

/-- The code points of the zeros; the other nine digits of a script follow its zero. -/
def zeros : List Nat :=
  [0x30, 0x660, 0x6f0, 0x7c0, 0x966, 0x9e6, 0xa66, 0xae6, 0xb66, 0xbe6, 0xc66, 0xce6, 0xd66,
   0xde6, 0xe50, 0xed0, 0xf20, 0x1040, 0x1090, 0x17e0, 0x1810, 0x1946, 0x19d0, 0x1a80, 0x1a90,
   0x1b50, 0x1bb0, 0x1c40, 0x1c50, 0xa620, 0xa8d0, 0xa900, 0xa9d0, 0xa9f0, 0xaa50, 0xabf0,
   0xff10, 0x104a0, 0x10d30, 0x11066, 0x110f0, 0x11136, 0x111d0, 0x112f0, 0x11450,
   0x114d0, 0x11650, 0x116c0, 0x11730, 0x118e0, 0x11950, 0x11c50, 0x11d50,
   0x11da0, 0x11f50, 0x16a60, 0x16ac0, 0x16b50, 0x1d7ce,
   0x1d7d8, 0x1d7e2, 0x1d7ec, 0x1d7f6, 0x1e140, 0x1e2f0, 0x1e4f0, 0x1e950, 0x1fbf0]

/-- The value of a decimal digit. -/
def digit? (c : Char) : Option Nat :=
  (zeros.find? (fun z => z ≤ c.toNat && c.toNat < z + 10)).map (c.toNat - ·)

/-- May the character surround a number? White space may, the information separators excepted. -/
def isNumberSpace (c : Char) : Bool := isSpace c && !(0x1c ≤ c.toNat && c.toNat ≤ 0x1f)

/-- Reads digits that go on a number of value `n`, where a single underscore may stand before
each. -/
def moreDigits (n : Nat) : List Char → Option Nat
  | [] => some n
  | '_' :: c :: cs => (digit? c).bind (fun d => moreDigits (10 * n + d) cs)
  | c :: cs => (digit? c).bind (fun d => moreDigits (10 * n + d) cs)

/-- Reads a natural number; it has at least one digit. -/
def readNat : List Char → Option Nat
  | [] => none
  | c :: cs => (digit? c).bind (fun d => moreDigits d cs)

/-- Reads a signed integer. -/
def readSigned : List Char → Option Int
  | '-' :: cs => (readNat cs).map (fun n => -(n : Int))
  | '+' :: cs => (readNat cs).map (fun n => (n : Int))
  | cs => (readNat cs).map (fun n => (n : Int))

/-- The most digits that an integer may have. -/
def maxDigits : Nat := 4300

/-- The number of digits in a text. -/
def digitCount (s : String) : Nat := s.toList.countP (fun c => (digit? c).isSome)

/-- Reads an integer with white space around it. -/
def readInt (s : String) : Option Int := readSigned (trimBy isNumberSpace s.toList)

/-- The number of decimal digits of an integer, its sign aside. -/
def decimalLength (n : Int) : Nat := (Nat.toDigits 10 n.natAbs).length

/-- An integer in decimal; one with too many digits is not written. -/
def decimal? (n : Int) : Option String :=
  if decimalLength n ≤ maxDigits then some (toString n) else none

end DoWhile.Text
