import DoWhile.Proofs.Parse.Acceptance
import DoWhile.Proofs.Parse.Rounds

/-!
# Reading in parts

A statement never looks at what stands behind its semicolon. A row of statements is therefore read
the same in front of anything, and what follows is read as if nothing had come before
(`row_append`). For whole token lists this says that a first part without a diagnostic can be parsed
apart from the rest (`parse_append`).

A first part with errors can be parsed apart as well, if one round of the parser ends right in front
of the rest (`ReadApart`, `readApart_of_ends`).
-/

set_option autoImplicit false

namespace DoWhile

namespace Parse

variable {f g : Feed}

/-! ## Rows in front of a feed -/

/-- A row of statements in front of a feed is read without a diagnostic, and then the feed as if
nothing had come before. -/
theorem row_append {ts : List Token} {ss : List Stmt} (hspells : Grammar.Statements ts ss)
    (hf : f.Live) (hpasses : f.Passes ts g) :
    (row f).items = ss ++ (row g).items ∧ (row f).notes.errors = (row g).notes.errors := by
  induction hspells generalizing f with
  | nil =>
      obtain rfl := hpasses.eq_of_nil
      exact ⟨rfl, rfl⟩
  | @cons first us ts s ss hfirst hs hss ih =>
      rw [← List.cons_append] at hpasses
      obtain ⟨hcurrent, h, hmoves, -, hpasses'⟩ := Feed.Passes.moves_of_append hf.free hpasses
      have hyields : statement.Yields f s h := by
        rw [yields_statement_iff hf, hcurrent]
        exact ⟨us, hmoves, hs⟩
      have hstart : f.atEnd = false := by rw [Feed.atEnd, hcurrent, hfirst]
      obtain ⟨hitems, herrors⟩ := ih (hf.of_moves hmoves).advance hpasses'
      rw [row_of_not_atEnd hf hstart, hyields.feed, hyields.value]
      constructor
      · rw [hitems]
        rfl
      · rw [Notes.errors_append, hyields.quiet, herrors, List.nil_append]

end Parse

/-! ## Whole token lists -/

/-- Which end token a list lacks depends on its last part alone. -/
theorem closed_append (ts : List Token) {us : List Token} (hus : us ≠ []) :
    closed (ts ++ us) = ts ++ closed us := by
  have hlast : (ts ++ us).getLast? = us.getLast? := by
    rw [List.getLast?_append, List.getLast?_eq_some_getLast hus, Option.some_or]
  rw [closed, closed, missingEnd, missingEnd, hlast, List.append_assoc]

/-- A list lacks an end token if its last token is none. -/
theorem exists_closed_eq {ts : List Token} (hlast : ∀ t ∈ ts.getLast?, t.isEnd = false) :
    ∃ p, closed ts = ts ++ [Token.endAt p] := by
  unfold closed missingEnd
  cases ht : ts.getLast? with
  | none => exact ⟨Position.start, rfl⟩
  | some t =>
      have hend := hlast t ht
      exact ⟨⟨t.position.line, t.position.column + t.literal.length⟩, by simp [hend]⟩

/-- Tokens without an end token that are parsed without a diagnostic spell what is parsed. -/
theorem statements_of_quiet {ts : List Token} (hts : ∀ t ∈ ts, t.isEnd = false)
    (hquiet : (parse ts).errors = []) : Grammar.Statements ts (parse ts).program.statements := by
  obtain ⟨us, hpasses, hspells, hend⟩ :=
    Parse.statements_sound _ (Feed.live_ofTokens ts) hquiet
  obtain ⟨p, hclosed⟩ := exists_closed_eq fun t ht => hts t (List.mem_of_getLast? ht)
  have hall := hclosed.symm.trans ((Feed.ofTokens_tokens ts).symm.trans hpasses.tokens)
  obtain rfl := eq_front_of_isEnd hall.symm hend hts
  exact hspells

/-- The lexeme of the first token, which is the end of the input if there is none. -/
def frontLexeme (ts : List Token) : Lexeme := (ts.head?.map (·.toLexeme)).getD Lexeme.endOfInput

/-- Behind a first part that does not end the input stands a feed that reads like the second part
alone. -/
theorem exists_feed_behind {ts : List Token} (rest : List Token)
    (hlast : ∀ t ∈ ts.getLast?, t.isEnd = false) :
    ∃ g, (Feed.ofTokens (ts ++ rest)).Passes ts g ∧ g.current.toLexeme = frontLexeme rest ∧
      (Parse.row g).items = (parse rest).program.statements ∧
      (Parse.row g).notes.errors = (parse rest).errors := by
  have hlive := Feed.live_ofTokens (ts ++ rest)
  have htokens := Feed.ofTokens_tokens (ts ++ rest)
  cases rest with
  | nil =>
      obtain ⟨p, hclosed⟩ := exists_closed_eq hlast
      rw [List.append_nil, hclosed] at htokens
      rw [List.append_nil] at hlive ⊢
      refine ⟨⟨Token.endAt p, [], false⟩, ⟨hlive.free.symm, htokens⟩, rfl, ?_, ?_⟩
      · rw [Parse.row_of_atEnd rfl, statements_parse, Parse.row_of_atEnd rfl]
      · rw [Parse.row_of_atEnd rfl, errors_parse, Parse.row_of_atEnd rfl]
  | cons t us =>
      have hfront := Feed.ofTokens_tokens (t :: us)
      rw [closed_append ts (by simp), ← hfront] at htokens
      refine ⟨Feed.ofTokens (t :: us), ⟨?_, htokens⟩, ?_, (statements_parse _).symm,
        (errors_parse _).symm⟩
      · rw [(Feed.live_ofTokens (t :: us)).free, hlive.free]
      · have hcurrent : (Feed.ofTokens (t :: us)).current = t := (List.cons.inj hfront).1
        rw [hcurrent]
        rfl

/-- In front of the rest, the tokens give the statements `ss` and the diagnostics `ds`, and the rest
is read as if nothing had come before. -/
structure ReadApart (ts rest : List Token) (ss : List Stmt) (ds : List Diagnostic) : Prop where
  statements : (parse (ts ++ rest)).program.statements = ss ++ (parse rest).program.statements
  errors : (parse (ts ++ rest)).errors = ds ++ (parse rest).errors

/-- What one round ends with right in front of the rest is read apart from it. -/
theorem readApart_of_ends {first : Token} {us : List Token} {v : Option Stmt}
    {ds : List Diagnostic} (rest : List Token) (hfirst : first.isEnd = false)
    (hlast : (us.getLastD first).isEnd = false)
    (hstatement : ∀ f g : Feed, f.Live → f.current = first → f.Moves us g →
      g.peek.toLexeme = frontLexeme rest → Parse.statement.Ends f v ds g) :
    ReadApart (first :: us) rest v.toList ds := by
  have hlive := Feed.live_ofTokens (first :: us ++ rest)
  have hlast' : ∀ t ∈ (first :: us).getLast?, t.isEnd = false := by
    intro t ht
    rw [List.getLast?_cons, ← List.getLastD_eq_getLast?, Option.mem_some_iff] at ht
    rw [← ht, hlast]
  obtain ⟨h, hpasses, hfront, hitems, herrors⟩ := exists_feed_behind rest hlast'
  obtain ⟨hcurrent, g, hmoves, rfl⟩ := hpasses.exists_moves hlive.free
  have hpeek := Feed.current_advance (hlive.of_moves hmoves).free
  have hends := hstatement _ g hlive hcurrent hmoves (by rw [← hpeek, hfront])
  have hstart : (Feed.ofTokens (first :: us ++ rest)).atEnd = false := by
    rw [Feed.atEnd, hcurrent, hfirst]
  obtain ⟨hrow, -, hnotes⟩ := Parse.row_next hlive hstart hends ⟨hitems, rfl, herrors⟩
  exact ⟨by rw [statements_parse, hrow], by rw [errors_parse, hnotes]⟩

/-- **A clean part in front can be parsed apart.** If tokens without an end token are parsed without
a diagnostic, then with any tokens behind them the statements are those of the two parts in turn,
node by node and place by place, and the diagnostics are those of the second part. -/
theorem parse_append (ts us : List Token) (hts : ∀ t ∈ ts, t.isEnd = false)
    (hquiet : (parse ts).errors = []) :
    (parse (ts ++ us)).program.statements =
        (parse ts).program.statements ++ (parse us).program.statements ∧
      (parse (ts ++ us)).errors = (parse us).errors := by
  by_cases hus : us = []
  · rw [hus, List.append_nil, hquiet]
    exact ⟨(List.append_nil _).symm, rfl⟩
  have hpasses : (Feed.ofTokens (ts ++ us)).Passes ts (Feed.ofTokens us) := by
    refine ⟨?_, ?_⟩
    · rw [(Feed.live_ofTokens us).free, (Feed.live_ofTokens (ts ++ us)).free]
    · rw [Feed.ofTokens_tokens, Feed.ofTokens_tokens, closed_append ts hus]
  obtain ⟨hitems, herrors⟩ :=
    Parse.row_append (statements_of_quiet hts hquiet) (Feed.live_ofTokens (ts ++ us)) hpasses
  rw [statements_parse (ts ++ us), statements_parse us, errors_parse (ts ++ us), errors_parse us]
  exact ⟨hitems, herrors⟩

/-- A declaration. -/
def declarationTokens : List Token :=
  [⟨⟨.reserved, "int"⟩, ⟨1, 1⟩⟩, ⟨⟨.identifier, "a"⟩, ⟨1, 5⟩⟩, ⟨⟨.symbol, "="⟩, ⟨1, 6⟩⟩,
    ⟨⟨.number, "1"⟩, ⟨1, 7⟩⟩, ⟨⟨.symbol, ";"⟩, ⟨1, 8⟩⟩]

/-- A loop that breaks off in its body. -/
def openLoopTokens : List Token :=
  [⟨⟨.reserved, "do"⟩, ⟨2, 1⟩⟩, ⟨⟨.symbol, "\x7b"⟩, ⟨2, 4⟩⟩, ⟨⟨.identifier, "a"⟩, ⟨2, 6⟩⟩,
    ⟨⟨.symbol, "="⟩, ⟨2, 7⟩⟩]

/-- A loop that breaks off behind a whole declaration is read as it is by itself. -/
theorem parse_append_openLoop :
    (∀ t ∈ declarationTokens, t.isEnd = false) ∧ (parse declarationTokens).errors = [] ∧
      (parse (declarationTokens ++ openLoopTokens)).program.statements =
        (parse declarationTokens).program.statements ++ (parse openLoopTokens).program.statements ∧
      (parse (declarationTokens ++ openLoopTokens)).errors = (parse openLoopTokens).errors := by
  have hends : ∀ t ∈ declarationTokens, t.isEnd = false := by decide
  have hquiet : (parse declarationTokens).errors = [] := by decide
  exact ⟨hends, hquiet, parse_append declarationTokens openLoopTokens hends hquiet⟩

end DoWhile
