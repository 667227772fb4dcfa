import DoWhile.Proofs.Analysis.Occurrences
import DoWhile.Proofs.Parse.Rounds

/-!
# What diagnostics and symbols say

A diagnostic of the grammar is raised at a feed on the tokens and repeats the texts that are at hand
there (`exists_feed_of_mem_errors`); a diagnostic of a name repeats an identifier of the text. No
token has a line break in its text, so no message of an analysis has one (`oneLine_message`), and
neither have the symbols, whose type is always the same word (`of_mem_symbols`).
-/

set_option autoImplicit false

namespace DoWhile

/-- Does the text lie on one line? -/
def OneLine (s : String) : Prop := '\n' ∉ s.toList

/-- Texts on one line can be put behind one another. -/
theorem OneLine.append {s t : String} (hs : OneLine s) (ht : OneLine t) : OneLine (s ++ t) := by
  rw [OneLine, String.toList_append, List.mem_append]
  exact not_or.mpr ⟨hs, ht⟩

/-- It is decidable whether a text lies on one line. -/
instance (s : String) : Decidable (OneLine s) := inferInstanceAs (Decidable ('\n' ∉ s.toList))

/-! ## Complaints -/

/-- A lexeme on one line is described on one line. -/
theorem Lexeme.oneLine_describe {x : Lexeme} (hx : OneLine x.literal) : OneLine x.describe := by
  rw [describe]
  split
  · decide
  · exact ((by decide : OneLine "'").append hx).append (by decide)

namespace Feed

/-- Do all tokens of the feed, from the one under examination on, lie on one line each? -/
def OneLined (f : Feed) : Prop := ∀ t ∈ f.current :: f.following, OneLine t.literal

/-- The current token of a feed of short tokens lies on one line. -/
theorem OneLined.current {f : Feed} (hf : f.OneLined) : OneLine f.current.literal :=
  hf f.current List.mem_cons_self

/-- The next token of a feed of short tokens lies on one line. -/
theorem OneLined.peek {f : Feed} (hf : f.OneLined) : OneLine f.peek.literal := by
  obtain ⟨current, following, held⟩ := f
  cases following with
  | nil => exact hf current List.mem_cons_self
  | cons t ts => exact hf t (List.mem_cons_of_mem _ List.mem_cons_self)

end Feed

/-- What is expected at a feed is worded on one line if the tokens of the feed lie on one line. -/
theorem Expectation.oneLine_text {f : Feed} (hf : f.OneLined) {wanted : Expectation}
    (h : wanted.NamedAt f) : OneLine wanted.text := by
  cases wanted with
  | equalsAfterVariable name =>
      obtain rfl : name = f.current.literal := h
      exact ((by decide : OneLine "'=' after variable '").append hf.current).append (by decide)
  | equalsAfterTarget target =>
      obtain rfl : target = f.current.literal := h
      exact ((by decide : OneLine "'=' after '").append hf.current).append (by decide)
  | other text => exact h.elim
  | _ => decide

/-- A complaint about tokens that lie on one line each lies on one line. -/
theorem Complaint.oneLine_message {f : Feed} (hf : f.OneLined) {c : Complaint}
    (h : c.RaisedAt f) : OneLine c.message := by
  cases c with
  | unexpected found =>
      obtain rfl : found = f.current.toLexeme := h
      exact (by decide : OneLine "Unexpected token ").append (Lexeme.oneLine_describe hf.current)
  | expected wanted found =>
      obtain ⟨hwanted, hfound⟩ := h
      have hliteral : OneLine found.literal := by
        obtain rfl | rfl | rfl := hfound
        · exact hf.current
        · exact hf.peek
        · decide
      exact (((by decide : OneLine "Expected ").append (wanted.oneLine_text hf hwanted)).append
        (by decide : OneLine ", got ")).append (Lexeme.oneLine_describe hliteral)
  | _ => exact h.elim

/-- Every diagnostic of a parse is raised at a feed that has come so far in the tokens. -/
theorem exists_feed_of_mem_errors {tokens : List Token} {d : Diagnostic}
    (hd : d ∈ (parse tokens).errors) :
    ∃ (f : Feed) (c : Complaint), f.current :: f.following <:+ closed tokens ∧ c.RaisedAt f ∧
      d = ⟨.grammar, c, f.current.position⟩ := by
  rw [errors_parse] at hd
  obtain ⟨f, c, htrail, hraised, hd⟩ := (Parse.trail_row (Feed.live_ofTokens tokens)).raised d hd
  obtain ⟨us, hmoves, -⟩ := htrail.walk.exists_moves
  obtain ⟨ts, -, hpasses⟩ := hmoves.exists_passes
  have htokens := hpasses.tokens
  rw [Feed.ofTokens_tokens] at htokens
  exact ⟨f, c, ⟨ts, htokens.symm⟩, hraised, hd⟩

/-! ## The texts of an analysis -/

/-- No token of a text has a line feed in it. -/
theorem oneLine_literal {source : String} {t : Token} (ht : t ∈ scan source) :
    OneLine t.literal := by
  obtain ⟨ts, q, hts, hproper⟩ := exists_scan_eq source
  rw [hts, List.mem_append, List.mem_singleton] at ht
  rcases ht with ht | rfl
  · intro hbreak
    have hblank := Lexeme.not_isBlank_of_mem (hproper t ht) hbreak
    exact absurd hblank (by decide)
  · exact (by decide : OneLine Lexeme.endOfInput.literal)

/-- **No message of an analysis has a line break in it.** -/
theorem oneLine_message {implicit : List String} {source : String} {d : Diagnostic}
    (hd : d ∈ (analyze implicit source).diagnostics) : OneLine d.message := by
  rcases List.mem_append.mp hd with hsyntax | hnaming
  · obtain ⟨f, c, hsuffix, hraised, rfl⟩ := exists_feed_of_mem_errors hsyntax
    have htokens : f.current :: f.following <:+ scan source := by
      rw [← closed_scan source]
      exact hsuffix
    exact Complaint.oneLine_message (fun t ht => oneLine_literal (htokens.subset ht)) hraised
  · rw [namingErrors_eq] at hnaming
    rcases List.mem_append.mp hnaming with hagain | hunknown
    · obtain ⟨n, hmessage, hn⟩ := of_mem_repeatedErrors implicit hagain
      obtain ⟨q, hstands⟩ := hn.stands
      have hname : OneLine n :=
        oneLine_literal (hstands.subset (List.mem_cons_of_mem _ List.mem_cons_self))
      rw [hmessage]
      exact ((by decide : OneLine "Variable '").append hname).append (by decide)
    · obtain ⟨n, hmessage, hn⟩ := of_mem_unknownErrors hunknown
      rw [hmessage]
      exact ((by decide : OneLine "Variable '").append (oneLine_literal hn.stands)).append
        (by decide)

/-- The grammar gives every declaration the type of integers. -/
theorem Stmt.typeName_of_mem_declarations {s : Stmt} (hs : s.isGrammatical = true) {d : Declared}
    (hd : d ∈ s.declarations) : d.typeName = "int" := by
  cases s with
  | declaration typeName name value p =>
      rw [isGrammatical, Bool.and_eq_true, beq_iff_eq] at hs
      rw [declarations, List.mem_singleton] at hd
      rw [hd, hs.1]
  | assignment target value p => exact absurd hd List.not_mem_nil
  | loop body condition p =>
      rw [isGrammatical, Bool.and_eq_true, List.all_eq_true] at hs
      rw [declarations, declarationsAll_eq_flatMap, List.mem_flatMap] at hd
      obtain ⟨item, hitem, hd⟩ := hd
      have hassignment := hs.1 item hitem
      cases item with
      | assignment target value p => exact absurd hd List.not_mem_nil
      | declaration typeName name value p => exact absurd hassignment Bool.false_ne_true
      | loop body condition p => exact absurd hassignment Bool.false_ne_true

/-- Every symbol of an analysis has the type of integers and a name on one line. -/
theorem of_mem_symbols {implicit : List String} {source : String} {s : Symbol}
    (hs : s ∈ (analyze implicit source).symbols.symbols) :
    s.typeName = "int" ∧ OneLine s.name := by
  have hsymbols : (analyze implicit source).symbols.symbols =
      (firsts [] (parse (scan source)).program.declarations).map Declared.symbol :=
    (Checker.check_outcome implicit (parse (scan source)).program).2.1
  rw [hsymbols] at hs
  obtain ⟨d, hd, rfl⟩ := List.mem_map.mp hs
  have hdeclared : d ∈ (parse (scan source)).program.declarations :=
    (firsts_sublist [] _).subset hd
  obtain ⟨q, hstands⟩ := declarations_standIn source d hdeclared
  refine ⟨?_, oneLine_literal (hstands.subset (List.mem_cons_of_mem _ List.mem_cons_self))⟩
  rw [Program.declarations, Stmt.declarationsAll_eq_flatMap, List.mem_flatMap] at hdeclared
  obtain ⟨stmt, hstmt, hd⟩ := hdeclared
  exact Stmt.typeName_of_mem_declarations
    (List.all_eq_true.mp (parse_isGrammatical (scan source)) stmt hstmt) hd

end DoWhile
