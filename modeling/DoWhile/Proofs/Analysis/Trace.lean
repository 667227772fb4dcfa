import DoWhile.Analysis
import DoWhile.Proofs.Checker.Exact
import DoWhile.Proofs.Parse.Rounds
import DoWhile.Proofs.Token.Calls

/-!
# The trace of an analysis

What the stages log is what they find. A reading logs a character exactly if it makes an error token
of it (`Cursor.log_next`), a parse leaves a trail, so it logs its diagnostics one by one
(`log_parse`), and the checker logs a diagnostic whenever it raises one (`Program.log_check`). Each
stage closes with the sizes of what it found. Put behind one another, the records of the stages are
the trace of the analysis, in full and in order (`messages_analyze`).
-/

set_option autoImplicit false

namespace DoWhile

/-! ## The scan -/

/-- The record of an error token. -/
def Token.unrecognizedText (t : Token) : String :=
  "unrecognized character " ++ Text.quoted t.literal ++ " at " ++ t.position.text

/-- An error lexeme is the character at which it was read. -/
theorem Lexeme.literal_of_error {c : Char} {rest : List Char}
    (h : (longest c rest).1.kind = .error) : (longest c rest).1.literal = String.singleton c := by
  obtain ⟨-, hword⟩ | ⟨-, hnumber⟩ | ⟨ds, -, -, hequals⟩ | ⟨-, -, hsingle⟩ := longest_cases c rest
  · rw [hword, ofWord] at h
    split at h <;> cases h
  · rw [hnumber] at h
    cases h
  · rw [hequals] at h
    cases h
  · rw [hsingle]

namespace Cursor

/-- A reading logs its token if that is an error token, and nothing else. -/
theorem log_next (elapsed : String) (c : Cursor) :
    c.next.log.map (Event.message elapsed) =
      ([c.next.token].filter fun t => t.kind = .error).map Token.unrecognizedText := by
  cases hrest : c.skipBlanks.rest with
  | nil =>
      rw [next_of_skipBlanks_nil hrest]
      simp [Token.endAt, Lexeme.endOfInput]
  | cons ch rest =>
      have htoken := (next_of_skipBlanks_cons hrest).1
      by_cases herror : (Lexeme.longest ch rest).1.kind = .error
      · have hlog : c.next.log = [.unrecognized ch c.skipBlanks.position] := by
          simp only [next, hrest, herror, if_true]
        have hfilter : ([c.next.token].filter fun t => t.kind = .error) = [c.next.token] := by
          rw [htoken]
          exact List.filter_cons_of_pos (by simpa using herror)
        have hliteral : c.next.token.literal = String.singleton ch := by
          rw [htoken]
          exact Lexeme.literal_of_error herror
        have hposition : c.next.token.position = c.skipBlanks.position := by
          rw [htoken]
        have htext : c.next.token.unrecognizedText = "unrecognized character " ++
            Text.quoted (String.singleton ch) ++ " at " ++ c.skipBlanks.position.text := by
          unfold Token.unrecognizedText
          rw [hliteral, hposition]
        rw [hfilter, List.map_singleton, htext]
        exact congrArg (List.map (Event.message elapsed)) hlog
      · have hlog : c.next.log = [] := by
          simp only [next, hrest, herror, if_false]
        have hfilter : ([c.next.token].filter fun t => t.kind = .error) = [] := by
          rw [htoken]
          exact List.filter_cons_of_neg (by simpa using herror)
        rw [hlog, hfilter, List.map_nil, List.map_nil]

/-- Reading all tokens logs a message for each error token and no other. -/
theorem log_readAll (elapsed : String) (c : Cursor) :
    c.readAll.log.map (Event.message elapsed) =
      (c.readAll.tokens.filter fun t => t.kind = .error).map Token.unrecognizedText := by
  induction c using readAll.induct with
  | case1 c r hend =>
      rw [readAll_of_end hend]
      exact log_next elapsed c
  | case2 c r hend ih =>
      rw [readAll_of_not_end (by simpa using hend), List.map_append, ih, log_next,
        ← List.singleton_append (l := c.next.cursor.readAll.tokens), List.filter_append,
        List.map_append]

/-- A scan of a text ends on the line behind all its line feeds. -/
theorem line_readAll (source : String) :
    (start source).readAll.cursor.position.line = 1 + source.toList.count '\n' := by
  obtain ⟨⟨taken, htaken⟩, hrest, -⟩ := (start source).readAll_ends
  have hall : taken = source.toList := by
    have hsource := htaken.rest
    rw [hrest, List.append_nil] at hsource
    exact hsource.symm
  have hbehind : (start source).position.afterAll taken = Position.behind taken :=
    Position.afterAll_behind [] taken
  rw [htaken.position, hbehind, hall]
  rfl

end Cursor

/-! ## Diagnostics -/

/-- The records of diagnostics that one stage signs. -/
theorem messages_reported (elapsed heading : String) {ds : List Diagnostic} {o : Origin}
    (ho : ∀ d ∈ ds, d.origin = o) (hheading : o.name ++ " error at " = heading) :
    (ds.map .reported).map (Event.message elapsed) =
      ds.map fun d => heading ++ d.position.text ++ ": " ++ d.message := by
  rw [List.map_map]
  apply List.map_congr_left
  intro d hd
  show d.origin.name ++ " error at " ++ d.position.text ++ ": " ++ d.message = _
  rw [ho d hd, hheading]

/-! ## The parse -/

/-- A parse logs each of its diagnostics once and in order, and then how much it read. -/
theorem log_parse (tokens : List Token) :
    (parse tokens).log = (parse tokens).errors.map .reported ++
      [.parsed (parse tokens).program.statements.length (parse tokens).errors.length] := by
  have htrail := Parse.trail_row (Feed.live_ofTokens tokens)
  rw [← statements_allowance] at htrail
  have hlog := htrail.log_eq
  simp only [parse, hlog]

/-- The diagnostics of a parse are those of the grammar. -/
theorem origin_of_mem_errors {tokens : List Token} {d : Diagnostic}
    (hd : d ∈ (parse tokens).errors) : d.origin = .grammar := by
  rw [errors_parse] at hd
  obtain ⟨k, c, -, -, rfl⟩ := (Parse.trail_row (Feed.live_ofTokens tokens)).raised d hd
  rfl

/-! ## The check -/

/-- A check logs each of its diagnostics once and in order, and then how much it knows. -/
theorem Program.log_check (implicit : List String) (p : Program) :
    (p.check implicit).checker.log = (p.check implicit).checker.errors.map .reported ++
      [.checked (p.check implicit).checker.table.size
        (p.check implicit).checker.errors.length] := by
  rw [Program.check, Checker.check_toTree]
  simp [Checker.conclude, Checker.useAll, Checker.declareAll, Checker.complainAll, Checker.new]

/-- The diagnostics of a check are those of names. -/
theorem Program.origin_of_mem_check {implicit : List String} {p : Program} {d : Diagnostic}
    (hd : d ∈ (p.check implicit).checker.errors) : d.origin = .naming := by
  rw [(Checker.check_outcome implicit p).2.2] at hd
  rcases List.mem_append.mp hd with hagain | hunresolved
  · obtain ⟨e, -, rfl⟩ := List.mem_map.mp hagain
    rfl
  · obtain ⟨u, -, rfl⟩ := List.mem_map.mp hunresolved
    rfl

/-! ## The whole analysis -/

/-- **The trace mirrors the analysis.** An analysis logs, in this order and nothing else: a record
for each error token, the sizes of the token list and of the text in lines, a record for each
diagnostic of the grammar, the sizes of the program and of these diagnostics, a record for each
diagnostic of a name, the sizes of the table and of those diagnostics, and all counts at the end. -/
theorem messages_analyze (implicit : List String) (source elapsed : String) :
    let a : Analysis := analyze implicit source
    a.log.map (Event.message elapsed) =
      ((a.tokens.filter fun t => t.kind = .error).map fun t =>
        "unrecognized character " ++ Text.quoted t.literal ++ " at " ++ t.position.text) ++
      ["scanned " ++ toString a.tokens.length ++ " tokens over " ++
        toString (1 + source.toList.count '\n') ++ " lines"] ++
      (a.syntaxErrors.map fun d =>
        "syntax error at " ++ d.position.text ++ ": " ++ d.message) ++
      ["parsed " ++ toString a.program.statements.length ++ " statements with " ++
        toString a.syntaxErrors.length ++ " syntax errors"] ++
      (a.namingErrors.map fun d =>
        "semantic error at " ++ d.position.text ++ ": " ++ d.message) ++
      ["checked program: " ++ toString a.symbols.size ++ " symbols, " ++
        toString a.namingErrors.length ++ " semantic errors"] ++
      ["analysis finished in " ++ elapsed ++ " ms: " ++ toString a.tokens.length ++ " tokens, " ++
        toString a.syntaxErrors.length ++ " syntax errors, " ++
        toString a.namingErrors.length ++ " semantic errors"] := by
  intro a
  have hsyntax := messages_reported elapsed "syntax error at "
    (fun d (hd : d ∈ a.syntaxErrors) => origin_of_mem_errors hd) rfl
  have hnaming := messages_reported elapsed "semantic error at "
    (fun d (hd : d ∈ a.namingErrors) => Program.origin_of_mem_check hd) rfl
  have hscan : (Cursor.start source).scanAll.log = (Cursor.start source).readAll.log ++
      [.scanned a.tokens.length (Cursor.start source).readAll.cursor.position.line] := rfl
  have hparse : (parse a.tokens).log = a.syntaxErrors.map .reported ++
      [.parsed a.program.statements.length a.syntaxErrors.length] := log_parse a.tokens
  have hcheck : (a.program.check implicit).checker.log = a.namingErrors.map .reported ++
      [.checked a.symbols.size a.namingErrors.length] := Program.log_check implicit a.program
  have hlog : a.log = (Cursor.start source).scanAll.log ++ (parse a.tokens).log ++
      (a.program.check implicit).checker.log ++
      [.finished a.tokens.length a.syntaxErrors.length a.namingErrors.length] := rfl
  rw [hlog, hscan, hparse, hcheck, Cursor.line_readAll]
  simp only [List.map_append, Cursor.log_readAll, hsyntax, hnaming, List.append_assoc]
  rfl

end DoWhile
