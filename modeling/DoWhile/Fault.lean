import DoWhile.Text.Integer
import DoWhile.Tree

/-!
# Faults

A fault stops a call that cannot be answered: reading past the end of a text, a tree that is no
program, no row of statements, no statement or no expression, a key that no table can be asked for,
a file that cannot be a program text, or a setting that cannot be used. The wording of each is given
by `Fault.message`; bytes that are no text have no wording of their own. Of a long text that is no
port, the wording shows the first 200 characters.

A node is named in full. One that cannot be written out, because an integer in it is too long, is
not named: then the writing itself is what fails (`Fault.naming`).
-/

set_option autoImplicit false

namespace DoWhile

/-- Why a call could not be answered. -/
inductive Fault where
  | pastEnd
  | unknownStatement (node : Tree)
  | unknownExpression (node : Tree)
  | notIterable (className : String)
  | noStatements (className : String)
  | longInteger
  | unhashable (className : String)
  | embeddedNul
  | undecodable
  | badPort (text : String)
  | longPort (digits : Nat)
  | unknownLevel (name : String)
  deriving Repr, Inhabited

namespace Fault

/-- The fault that names a node, or that of writing the node if it cannot be written. -/
def naming (fault : Tree → Fault) (node : Tree) : Fault :=
  match node.quoted? with
  | some _ => fault node
  | none => .longInteger

/-- The wording of a fault, where it has one. -/
def message : Fault → Option String
  | pastEnd => some "string index out of range"
  | unknownStatement node => node.quoted?.map ("Unknown statement node: " ++ ·)
  | unknownExpression node => node.quoted?.map ("Unknown expression node: " ++ ·)
  | notIterable className => some ("'" ++ className ++ "' object is not iterable")
  | noStatements className => some ("'" ++ className ++ "' object has no attribute 'statements'")
  | longInteger =>
    some ("Exceeds the limit (" ++ toString Text.maxDigits
      ++ " digits) for integer string conversion; use sys.set_int_max_str_digits() to increase "
      ++ "the limit")
  | unhashable className => some ("unhashable type: '" ++ className ++ "'")
  | embeddedNul => some "embedded null byte"
  | undecodable => none
  | badPort text =>
    some ("invalid literal for int() with base 10: "
      ++ String.ofList ((Text.quoted text).toList.take 200))
  | longPort digits =>
    some ("Exceeds the limit (" ++ toString Text.maxDigits
      ++ " digits) for integer string conversion: value has " ++ toString digits
      ++ " digits; use sys.set_int_max_str_digits() to increase the limit")
  | unknownLevel name => some ("Unknown level: " ++ Text.quoted name)

end Fault

end DoWhile
