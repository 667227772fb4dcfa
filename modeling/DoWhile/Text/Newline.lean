/-!
# Line ends

A text file may end its lines in a carriage return, a line feed, or both. Before it is read as a
program, every line end becomes one line feed.
-/

set_option autoImplicit false

namespace DoWhile.Text

/-- The text with every line end as one line feed: a carriage return takes a line feed right
behind it along. -/
def lineFeeds : List Char → List Char
  | [] => []
  | '\r' :: '\n' :: cs => '\n' :: lineFeeds cs
  | c :: cs => (if c = '\r' then '\n' else c) :: lineFeeds cs

end DoWhile.Text
