/-!
# Positions in a source text

A position is a line and a column, both counted from one and in code points. Reading a character
moves a position (`Position.after`), and reading a text moves it character by character
(`Position.afterAll`). Coordinates are integers because hand-made tokens and trees may carry any.

The lemmas say how a position moves through the empty text, one more character and a
concatenation; everything else about positions is derived from these three.
-/

set_option autoImplicit false

namespace DoWhile

/-- A place in a text, as a line and a column. -/
structure Position where
  line : Int
  column : Int
  deriving DecidableEq, Repr, Inhabited

namespace Position

/-- The place of the first character of a text. -/
def start : Position := ⟨1, 1⟩

/-- The place of a thing that was never written in a text. -/
def nowhere : Position := ⟨0, 0⟩

/-- The place right after the character `c` at `p`: a line feed opens the next line, and every
other character takes one column. -/
def after (p : Position) (c : Char) : Position :=
  if c = '\n' then ⟨p.line + 1, 1⟩ else ⟨p.line, p.column + 1⟩

/-- The place right after the text `cs` that begins at `p`. -/
def afterAll (p : Position) (cs : List Char) : Position := cs.foldl after p

/-- A position in the form `line:column`. -/
def text (p : Position) : String := toString p.line ++ ":" ++ toString p.column

/-- Nothing read leaves the position as it is. -/
@[simp] theorem afterAll_nil (p : Position) : p.afterAll [] = p := rfl

/-- A position is moved past characters one by one. -/
@[simp] theorem afterAll_cons (p : Position) (c : Char) (cs : List Char) :
    p.afterAll (c :: cs) = (p.after c).afterAll cs := rfl

/-- Reading two texts in a row is reading their concatenation. -/
@[simp] theorem afterAll_append (p : Position) (cs ds : List Char) :
    p.afterAll (cs ++ ds) = (p.afterAll cs).afterAll ds := by
  simp [afterAll, List.foldl_append]

end Position

end DoWhile
