import DoWhile.Fault
import DoWhile.Path
import DoWhile.Report
import DoWhile.Text.Newline

/-!
# The command line

The command takes one argument, the path of a program text. It prints a line for each diagnostic,
a line for each symbol and a summary, and exits with one if there was a diagnostic. With any other
number of arguments it prints how it is used; a file that cannot be read is reported on the error
channel.

What a path leads to is known to the operating system alone, so it is an argument (`Reader`). Time
is measured outside, so the text of the elapsed time is an argument too.
-/

set_option autoImplicit false

namespace DoWhile.CommandLine

/-! ## Reading files -/

/-- Why a file could not be read: the number and the words of the operating system, and whether the
file could not even be opened. -/
structure ReadFailure where
  code : Nat
  text : String
  opening : Bool := true
  deriving DecidableEq, Repr, Inhabited

/-- What the operating system gives for each path: the bytes of a file, or the reason why there are
none. -/
abbrev Reader := Path → Except ReadFailure ByteArray

/-- The words for a failure at a path. Only a failure to open the file names the path. -/
def ReadFailure.describe (why : ReadFailure) (p : Path) : String :=
  "[Errno " ++ toString why.code ++ "] " ++ why.text
    ++ (if why.opening then ": " ++ Text.quoted p.text else "")

/-! ## What is printed -/

/-- What a run of the command leaves behind. -/
structure Console where
  exit : Nat
  stdout : String
  stderr : String
  deriving DecidableEq, Repr, Inhabited

/-- How the command is used. -/
def usage : Console := ⟨1, "Usage: mini-analyzer <file>\n", ""⟩

/-- The report of a file that could not be read. -/
def unreadable (p : Path) (why : ReadFailure) : Console :=
  ⟨1, "", "Cannot read " ++ p.text ++ ": " ++ why.describe p ++ "\n"⟩

/-- The line of a diagnostic. -/
def diagnosticLine (d : Diagnostic) : String :=
  "[" ++ d.origin.banner ++ "] line " ++ toString d.position.line ++ ", column "
    ++ toString d.position.column ++ ": " ++ d.message

/-- The line of a symbol. -/
def symbolLine (s : Symbol) : String := s.typeName ++ " " ++ s.name

/-- The line that sums an analysis up; the end token is not counted. -/
def summaryLine (elapsed : String) (a : Analysis) : String :=
  "Tokens: " ++ toString ((a.tokens.length : Int) - 1) ++ " | Errors: "
    ++ toString a.diagnostics.length ++ " | Time: " ++ elapsed ++ " ms"

/-- The lines that an analysis is printed as. -/
def lines (elapsed : String) (a : Analysis) : List String :=
  a.diagnostics.map diagnosticLine ++ a.symbols.symbols.map symbolLine ++ [summaryLine elapsed a]

/-- The lines of an analysis, and the exit code that tells whether there was a diagnostic. -/
def listing (elapsed : String) (a : Analysis) : Console :=
  { exit := if a.diagnostics.isEmpty then 0 else 1
    stdout := String.join ((lines elapsed a).map (· ++ "\n"))
    stderr := "" }

/-! ## A run -/

/-- The file that the arguments ask for, if they ask for one. -/
def request : List String → Except Fault (Option Path)
  | [arg] => if '\x00' ∈ arg.toList then .error .embeddedNul else .ok (some (Path.ofString arg))
  | _ => .ok none

/-- The program text of a file: its bytes have to be a text, and its lines end in line feeds. -/
def decode (bytes : ByteArray) : Except Fault String :=
  match String.fromUTF8? bytes with
  | none => .error .undecodable
  | some s => .ok (String.ofList (Text.lineFeeds s.toList))

/-- What a run comes to: no file was asked for, it could not be read, or its text was analysed. -/
inductive Outcome where
  | usage
  | unreadable (path : Path) (why : ReadFailure)
  | analysis (result : Analysis)
  deriving Repr, Inhabited

/-- What is printed for an outcome. -/
def Outcome.console (elapsed : String) : Outcome → Console
  | usage => CommandLine.usage
  | unreadable p why => CommandLine.unreadable p why
  | analysis a => listing elapsed a

/-- What the arguments come to. -/
def outcome (reader : Reader) (args : List String) : Except Fault Outcome := do
  match ← request args with
  | none => return .usage
  | some p =>
    match reader p with
    | .error why => return .unreadable p why
    | .ok bytes => return .analysis (analyze defaultImplicit (← decode bytes))

/-- What a run prints that came to its outcome in the given time. -/
def conclude (elapsed : String) (result : Except Fault Outcome) : Except Fault Console :=
  result.map (Outcome.console elapsed)

/-- A run of the command. -/
def run (reader : Reader) (elapsed : String) (args : List String) : Except Fault Console :=
  conclude elapsed (outcome reader args)

end DoWhile.CommandLine
