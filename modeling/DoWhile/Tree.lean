import DoWhile.Position
import DoWhile.Text.Integer
import DoWhile.Text.Quoted

/-!
# Loose trees

Programs can be handed over by other tools as trees in which any node, text, number, truth value
or sequence may stand at any place where a node or a row of nodes is expected. A `Tree` is such a
value. Two trees are the same when they agree up to the positions of their nodes, with the truth
values read as one and zero (`Tree.same`). A tree is written out in full (`Tree.quoted?`) unless it
holds an integer that is too long to be written.

Functions on trees come in pairs, one for a tree and one for a list of trees, so that both are
structural.
-/

set_option autoImplicit false

namespace DoWhile

/-- A node of a program, or anything else that stands in the place of one. -/
inductive Tree where
  | identifier (name : String) (position : Position)
  | number (text : String) (position : Position)
  | binary (left : Tree) (operator : String) (right : Tree) (position : Position)
  | declaration (typeName name : String) (value : Tree) (position : Position)
  | assignment (target : String) (value : Tree) (position : Position)
  | loop (body condition : Tree) (position : Position)
  | program (statements : Tree)
  | text (value : String)
  | integer (value : Int)
  | truth (value : Bool)
  | absent
  | sequence (items : List Tree)
  deriving Repr, Inhabited

namespace Tree

/-! ## Sameness -/

/-- The number that a tree stands for: an integer itself, true as one and false as zero. -/
def asInteger? : Tree → Option Int
  | integer n => some n
  | truth true => some 1
  | truth false => some 0
  | _ => none

mutual

/-- Are the two trees equal up to positions, with truth values read as one and zero? -/
def same : Tree → Tree → Bool
  | identifier n _, identifier m _ => n == m
  | number t _, number u _ => t == u
  | binary l o r _, binary l' o' r' _ => same l l' && o == o' && same r r'
  | declaration t n v _, declaration t' n' v' _ => t == t' && n == n' && same v v'
  | assignment n v _, assignment n' v' _ => n == n' && same v v'
  | loop b c _, loop b' c' _ => same b b' && same c c'
  | program ss, program ss' => same ss ss'
  | text s, text s' => s == s'
  | integer n, t => t.asInteger? == some n
  | truth true, t => t.asInteger? == some 1
  | truth false, t => t.asInteger? == some 0
  | absent, absent => true
  | sequence ts, sequence ts' => sameAll ts ts'
  | _, _ => false

/-- Are the two lists of one length and the same tree by tree? -/
def sameAll : List Tree → List Tree → Bool
  | [], [] => true
  | t :: ts, u :: us => same t u && sameAll ts us
  | _, _ => false

end

/-! ## Classes and rows -/

/-- The class of a tree, as messages name it. -/
def className : Tree → String
  | identifier _ _ => "Identifier"
  | number _ _ => "NumberLiteral"
  | binary _ _ _ _ => "BinaryOp"
  | declaration _ _ _ _ => "VariableDeclaration"
  | assignment _ _ _ => "Assignment"
  | loop _ _ _ => "DoWhileLoop"
  | program _ => "Program"
  | text _ => "str"
  | integer _ => "int"
  | truth _ => "bool"
  | absent => "NoneType"
  | sequence _ => "tuple"

/-- The characters of a text, each as a text. -/
def characters (s : String) : List Tree := s.toList.map fun c => text (String.singleton c)

/-- What is met in going through a tree item by item: the items of a sequence, or the characters of
a text. Nothing else can be gone through. -/
def items? : Tree → Option (List Tree)
  | sequence items => some items
  | text s => some (characters s)
  | _ => none

/-! ## Writing a tree out -/

/-- A sequence of written values: in parentheses, and with a trailing comma if it has one item. -/
def writtenSequence : List String → String
  | [item] => "(" ++ item ++ ",)"
  | items => "(" ++ String.intercalate ", " items ++ ")"

/-- A written node: its class and its named fields. -/
def writtenNode (label : String) (fields : List (String × String)) : String :=
  label ++ "(" ++ String.intercalate ", " (fields.map (fun f => f.1 ++ "=" ++ f.2)) ++ ")"

/-- The fields that tell where a node stands. -/
def positionFields? (p : Position) : Option (List (String × String)) := do
  return [("line", ← Text.decimal? p.line), ("column", ← Text.decimal? p.column)]

mutual

/-- A tree written out in full, with every field and position; nothing, if an integer in it is too
long to be written. -/
def quoted? : Tree → Option String
  | identifier name p => do
    return writtenNode "Identifier" (("name", Text.quoted name) :: (← positionFields? p))
  | number value p => do
    return writtenNode "NumberLiteral" (("text", Text.quoted value) :: (← positionFields? p))
  | binary left operator right p => do
    return writtenNode "BinaryOp" ([("left", ← quoted? left), ("operator", Text.quoted operator),
      ("right", ← quoted? right)] ++ (← positionFields? p))
  | declaration typeName name value p => do
    return writtenNode "VariableDeclaration" ([("type_name", Text.quoted typeName),
      ("name", Text.quoted name), ("value", ← quoted? value)] ++ (← positionFields? p))
  | assignment target value p => do
    return writtenNode "Assignment" ([("target", Text.quoted target), ("value", ← quoted? value)]
      ++ (← positionFields? p))
  | loop body condition p => do
    return writtenNode "DoWhileLoop" ([("body", ← quoted? body),
      ("condition", ← quoted? condition)] ++ (← positionFields? p))
  | program statements => do
    return writtenNode "Program" [("statements", ← quoted? statements)]
  | text value => some (Text.quoted value)
  | integer value => Text.decimal? value
  | truth true => some "True"
  | truth false => some "False"
  | absent => some "None"
  | sequence items => (quotedAll? items).map writtenSequence

/-- Each tree of a list written out. -/
def quotedAll? : List Tree → Option (List String)
  | [] => some []
  | t :: ts => do return (← quoted? t) :: (← quotedAll? ts)

end

end Tree

end DoWhile
