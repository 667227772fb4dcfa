/-!
# White space around a text

White space here is the Unicode property, together with the four information separators. The plain
comma is none of it, nor is the zero-width space.
-/

set_option autoImplicit false

namespace DoWhile.Text

/-- The code points of white space, as closed ranges. -/
def spaceRanges : List (Nat × Nat) :=
  [(0x9, 0xd), (0x1c, 0x20), (0x85, 0x85), (0xa0, 0xa0), (0x1680, 0x1680), (0x2000, 0x200a),
   (0x2028, 0x2029), (0x202f, 0x202f), (0x205f, 0x205f), (0x3000, 0x3000)]

/-- Is the character white space? -/
def isSpace (c : Char) : Bool := spaceRanges.any (fun r => r.1 ≤ c.toNat && c.toNat ≤ r.2)

/-- The text without the characters of a class at its two ends. -/
def trimBy (p : Char → Bool) (cs : List Char) : List Char :=
  (((cs.dropWhile p).reverse).dropWhile p).reverse

/-- The text without white space at its two ends. -/
def trim (cs : List Char) : List Char := trimBy isSpace cs

end DoWhile.Text
