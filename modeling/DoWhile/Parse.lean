import DoWhile.Event
import DoWhile.Feed

/-!
# Parses

A parse reads from a feed. It gives a value or fails, leaves the feed further on, and notes the
diagnostics that it raised. A failed parse keeps its feed and its notes, so that whoever called it
can recover from there. Every diagnostic is raised at the token under examination, and raising it
is logged as an event of its own.
-/

set_option autoImplicit false

namespace DoWhile

/-- The diagnostics that a parse raised and the events that it logged. -/
structure Notes where
  errors : List Diagnostic
  log : List Event
  deriving DecidableEq, Repr, Inhabited

namespace Notes

/-- Nothing was noted. -/
def none : Notes := ⟨[], []⟩

/-- One diagnostic was raised and reported. -/
def one (d : Diagnostic) : Notes := ⟨[d], [.reported d]⟩

/-- Notes of two readings in a row. -/
protected def append (a b : Notes) : Notes := ⟨a.errors ++ b.errors, a.log ++ b.log⟩

/-- Notes are put behind one another, diagnostics to diagnostics and log to log. -/
instance : Append Notes := ⟨Notes.append⟩

/-- The diagnostics of joined notes are the diagnostics of both, in order. -/
@[simp] theorem errors_append (a b : Notes) : (a ++ b).errors = a.errors ++ b.errors := rfl

/-- The log of joined notes is the log of both, in order. -/
@[simp] theorem log_append (a b : Notes) : (a ++ b).log = a.log ++ b.log := rfl

/-- Putting no notes behind some changes nothing. -/
@[simp] theorem append_none (a : Notes) : a ++ none = a := by
  change Notes.mk (a.errors ++ []) (a.log ++ []) = a
  rw [List.append_nil, List.append_nil]

end Notes

/-- What a parse gives: a value unless it failed, the feed that it left, and its notes. -/
structure Outcome (α : Type) where
  value : Option α
  feed : Feed
  notes : Notes
  deriving DecidableEq, Repr, Inhabited

/-- A reader of feeds. -/
def Parse (α : Type) : Type := Feed → Outcome α

namespace Parse

variable {α β : Type}

/-- What a parser does on a feed. -/
def run (p : Parse α) (f : Feed) : Outcome α := p f

/-- Reads nothing and gives `a`. -/
protected def pure (a : α) : Parse α := fun f => ⟨some a, f, Notes.none⟩

/-- Reads `p` and then what its value asks for; if `p` fails, the whole fails with it. -/
protected def bind (p : Parse α) (q : α → Parse β) : Parse β := fun f =>
  let first := p f
  match first.value with
  | none => ⟨none, first.feed, first.notes⟩
  | some a =>
    let second := q a first.feed
    ⟨second.value, second.feed, first.notes ++ second.notes⟩

/-- Parsers are sequenced by the feed and the notes that each leaves; a parser that fails ends the
sequence. -/
instance : Monad Parse where
  pure := Parse.pure
  bind := Parse.bind

/-- Fails without a word. -/
def fail : Parse α := fun f => ⟨none, f, Notes.none⟩

/-- The current token. -/
def current : Parse Token := fun f => ⟨some f.current, f, Notes.none⟩

/-- The token behind the current one. -/
def peek : Parse Token := fun f => ⟨some f.peek, f, Notes.none⟩

/-- Moves the feed. -/
def move (m : Feed → Feed) : Parse Unit := fun f => ⟨some (), m f, Notes.none⟩

/-- Moves the feed on by one token. -/
def advance : Parse Unit := move Feed.advance

/-- Raises a diagnostic at the token under examination and goes on. -/
def complain (c : Complaint) : Parse Unit := fun f =>
  ⟨some (), f, Notes.one ⟨.grammar, c, f.current.position⟩⟩

/-- Raises a diagnostic at the token under examination and fails. -/
def reject (c : Complaint) : Parse α := fun f =>
  ⟨none, f, Notes.one ⟨.grammar, c, f.current.position⟩⟩

/-- Moves onto the next token if it passes the test, and else fails for want of it. -/
def expectThat (test : Token → Bool) (wanted : Expectation) : Parse Unit := fun f =>
  if test f.peek then advance f else reject (.expected wanted f.peek.toLexeme) f

/-- Moves onto the next token, which has to be the symbol or reserved word `literal`. -/
def expect (literal : String) (wanted : Expectation) : Parse Unit :=
  expectThat (fun t => t.isMark literal) wanted

/-- Moves onto the next token, which has to be of the given kind. -/
def expectKind (kind : Token.Kind) (wanted : Expectation) : Parse Unit :=
  expectThat (fun t => t.kind = kind) wanted

/-- Runs `p` and tells whether it succeeded. -/
def succeeds (p : Parse α) : Parse Bool := fun f =>
  let o := p f
  ⟨some o.value.isSome, o.feed, o.notes⟩

/-- Runs `p`; if it fails, moves the feed and still fails. -/
def orMove (p : Parse α) (m : Feed → Feed) : Parse α := fun f =>
  let o := p f
  match o.value with
  | none => ⟨none, m o.feed, o.notes⟩
  | some a => ⟨some a, o.feed, o.notes⟩

end Parse

end DoWhile
