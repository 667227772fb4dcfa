/-!
# Paths

A path is a root and the names that lead on from it. Reading a path drops empty names and single
dots and keeps double dots, since only the file system knows where those lead.
-/

set_option autoImplicit false

namespace DoWhile

/-- Where a path begins: at the working directory, at the root, or at the root written with two
slashes. -/
inductive Root where
  | here
  | top
  | doubleTop
  deriving DecidableEq, Repr, Inhabited

/-- How a root is written. -/
def Root.text : Root → String
  | here => ""
  | top => "/"
  | doubleTop => "//"

/-- A root and the names that lead on from it. -/
structure Path where
  root : Root
  names : List String
  deriving DecidableEq, Repr, Inhabited

namespace Path

/-- The root of a path as it is written: two leading slashes are a root of their own, and any
other number of them is one slash. -/
def rootOf (cs : List Char) : Root :=
  match (cs.takeWhile (· == '/')).length with
  | 0 => .here
  | 2 => .doubleTop
  | _ => .top

/-- Reads a path; empty names and single dots lead nowhere and are dropped. -/
def ofString (s : String) : Path :=
  { root := rootOf s.toList
    names := ((s.toList.splitOn '/').filter (fun p => p != [] && p != ['.'])).map String.ofList }

/-- The path in its shortest written form; the working directory itself is a single dot. -/
def text (p : Path) : String :=
  match p.root, p.names with
  | .here, [] => "."
  | r, names => r.text ++ String.intercalate "/" names

end Path

end DoWhile
