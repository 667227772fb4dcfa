/-!
# JSON values

The values that symbols may hold and that reports go out as. A number that is not an integer keeps
the text it was written as.
-/

set_option autoImplicit false

namespace DoWhile

/-- A JSON value. -/
inductive Json where
  | null
  | bool (value : Bool)
  | integer (value : Int)
  | decimal (text : String)
  | string (value : String)
  | array (items : List Json)
  | object (fields : List (String × Json))
  deriving Repr, Inhabited

/-- The text of a value that is a string. -/
def Json.text? : Json → Option String
  | string s => some s
  | _ => none

/-- The class of a value that cannot be the key of a table. -/
def Json.unhashable? : Json → Option String
  | array _ => some "list"
  | object _ => some "dict"
  | _ => none

end DoWhile
