import DoWhile.Proofs.Parse.Calls
import DoWhile.Proofs.Parse.Ending
import DoWhile.Proofs.Parse.Indices
import DoWhile.Proofs.Parse.Rounds

/-!
# Held feeds

A held feed never moves, so the token behind the current one is read again and again: a declaration
takes its own first word for the one before a name, an assignment takes its target for its value.
No statement can be read that way. Unless the feed stands on `do`, each round raises one diagnostic
at the current token, always the same (`Parse.Sticks`, `sticks_statement`), and only the limit on
the rounds ends the reading (`statements_of_sticks`, `program_held`).
-/

set_option autoImplicit false

namespace DoWhile

/-- A held feed does not move. -/
theorem Feed.advance_of_held {f : Feed} (hheld : f.held = true) : f.advance = f := by
  obtain ⟨current, following, held⟩ := f
  obtain rfl : held = true := hheld
  rfl

namespace Parse

variable {α β : Type} {p : Parse α} {q : α → Parse β} {f : Feed}

/-! ## Parses that stick -/

/-- The parse fails without moving, with one diagnostic of reading at the current token. -/
def Sticks (p : Parse α) (f : Feed) : Prop :=
  ∃ c : Complaint, c.ofReading = true ∧ p.Ends f none [⟨.grammar, c, f.current.position⟩] f

/-- A parse that begins with one that sticks sticks. -/
theorem Sticks.bind (hp : p.Sticks f) : (p >>= q).Sticks f := by
  obtain ⟨c, hc, hends⟩ := hp
  exact ⟨c, hc, hends.bind_none⟩

/-- What yields without moving leaves it to the next parse to stick. -/
theorem Yields.bind_sticks {a : α} (hp : p.Yields f a f) (hq : (q a).Sticks f) :
    (p >>= q).Sticks f := by
  obtain ⟨c, hc, hends⟩ := hq
  exact ⟨c, hc, hp.bind_ends hends⟩

/-- A parse sticks if its outcome is that of one that does. -/
theorem Sticks.congr {p' : Parse α} (hp' : p'.Sticks f) (heq : p f = p' f) : p.Sticks f := by
  obtain ⟨c, hc, hends⟩ := hp'
  exact ⟨c, hc, hends.congr heq⟩

/-- A rejection for a reason of reading sticks. -/
theorem sticks_reject {c : Complaint} (hc : c.ofReading = true) : (reject c : Parse α).Sticks f :=
  ⟨c, hc, ends_reject c f⟩

/-- An expectation that is not met sticks. -/
theorem sticks_expectThat {test : Token → Bool} {wanted : Expectation}
    (htest : test f.peek = false) : (expectThat test wanted).Sticks f := by
  have hreject : (reject (.expected wanted f.peek.toLexeme) : Parse Unit).Sticks f :=
    sticks_reject rfl
  exact hreject.congr (by rw [expectThat, if_neg (by simp [htest])])

/-- A text that is expected and not there sticks. -/
theorem sticks_expect {w : String} {wanted : Expectation} (hmark : f.peek.isMark w = false) :
    (expect w wanted).Sticks f := sticks_expectThat hmark

/-- On a held feed, moving on yields the same feed. -/
theorem yields_advance_of_held (hheld : f.held = true) : advance.Yields f () f :=
  yields_advance.mpr (Feed.advance_of_held hheld)

/-- On a held feed, an expectation that is met yields the same feed. -/
theorem yields_expectThat_of_held {test : Token → Bool} {wanted : Expectation}
    (hheld : f.held = true) (htest : test f.peek = true) : (expectThat test wanted).Yields f () f :=
  yields_expectThat.mpr ⟨htest, Feed.advance_of_held hheld⟩

/-- The name behind the first word of a declaration stays where a sign of assignment has to be. -/
theorem sticks_declaration (hheld : f.held = true) : declaration.Sticks f := by
  unfold declaration
  refine Yields.bind_sticks (yields_current.mpr ⟨rfl, rfl⟩) ?_
  by_cases hkind : f.peek.kind = .identifier
  · have hname : (expectKind .identifier .variableName).Yields f () f :=
      yields_expectThat_of_held hheld (by simp [hkind])
    refine hname.bind_sticks (Yields.bind_sticks (yields_current.mpr ⟨rfl, rfl⟩) ?_)
    have hmark : f.peek.isMark "=" = false := by simp [Lexeme.isMark, hkind]
    exact (sticks_expect hmark).bind
  · exact (sticks_expectThat (by simp [hkind])).bind

/-- The sign of assignment behind a target stays where a semicolon has to be. -/
theorem sticks_assignment (hheld : f.held = true) (hstarts : startsAssignment f = true) :
    assignment.Sticks f := by
  obtain ⟨hkind, hequals⟩ := startsAssignment_iff.mp hstarts
  have hsign : isArithmetic f.peek.toLexeme = false := by
    simp [isArithmetic, Lexeme.literal_of_isMark hequals]
  have hvalue : expression.Yields f (.identifier f.current.literal f.current.position) f := by
    have hoperand : operand.Yields f (.identifier f.current.literal f.current.position) f :=
      yields_operand.mpr ⟨by simp [Token.operand?, hkind], rfl⟩
    refine yields_bind.mpr ⟨_, f, hoperand, ?_⟩
    rw [yields_peek_bind, hsign]
    exact yields_pure.mpr ⟨rfl, rfl⟩
  have hsemicolon : f.peek.isMark ";" = false := Lexeme.not_isMark_of_ne hequals (by decide)
  unfold assignment
  refine Yields.bind_sticks (yields_current.mpr ⟨rfl, rfl⟩) ?_
  refine (yields_expectThat_of_held hheld hequals).bind_sticks ?_
  refine (yields_advance_of_held hheld).bind_sticks (hvalue.bind_sticks ?_)
  exact (sticks_expect hsemicolon).bind

/-- On a held feed no statement can be read, unless it is a loop. -/
theorem sticks_statement (hheld : f.held = true) (hdo : f.current.literal ≠ "do") :
    statement.Sticks f := by
  obtain ⟨-, heq⟩ | ⟨h, -⟩ | ⟨-, -, ⟨hstarts, heq⟩ | ⟨-, heq⟩⟩ := statement_cases f
  · exact (sticks_declaration hheld).congr heq
  · exact absurd h hdo
  · exact (sticks_assignment hheld hstarts).congr heq
  · exact (sticks_reject rfl).congr heq

/-! ## Rounds -/

/-- Where a statement sticks on a held feed, it sticks in every round, until there are no rounds
left. -/
theorem statements_of_sticks (hheld : f.held = true) (hend : f.atEnd = false)
    (hdo : f.current.literal ≠ "do") :
    ∃ c : Complaint, c.ofReading = true ∧ ∀ rounds, (statements rounds f).Ends []
      (List.replicate rounds ⟨.grammar, c, f.current.position⟩ ++
        [⟨.grammar, .tooManyRounds, f.current.position⟩]) f := by
  obtain ⟨c, hc, hstatement⟩ := sticks_statement hheld hdo
  refine ⟨c, hc, fun rounds => ?_⟩
  induction rounds with
  | zero =>
      rw [statements, if_neg (by simp [hend])]
      exact ⟨rfl, rfl, rfl⟩
  | succ rounds ih =>
      obtain ⟨hitems, hfeed, herrors⟩ := ih
      rw [statements_succ hend, hstatement.value, hstatement.feed, Feed.advance_of_held hheld]
      refine ⟨hitems, hfeed, ?_⟩
      rw [Notes.errors_append, hstatement.errors, herrors, List.replicate_succ]
      rfl

end Parse

/-! ## Sessions -/

namespace Session

/-- The session on a token list that stands at the index, with these diagnostics so far. -/
def atIndex (tokens : List Token) (errors : List Diagnostic) (i : Nat) : Session :=
  ⟨closed tokens, Feed.atIndex tokens i, errors⟩

/-- The same session, held from there on. -/
def heldAt (tokens : List Token) (errors : List Diagnostic) (i : Nat) : Session :=
  ((atIndex tokens errors i).run .hold).2

/-- **The limit on the rounds ends what cannot move.** Take any tokens and any index at which there
stands neither an end token nor the text `do`. Reading a program with the feed held there gives no
statement and leaves the session as it was, but for the diagnostics. For each round, of which there
are twice as many as tokens, the same one is added, and behind these the one for want of rounds; all
stand at the current token, and the others do not say that there were too many rounds. -/
theorem program_held (tokens : List Token) (errors : List Diagnostic) (i : Nat)
    (hi : i < (closed tokens).length) (hend : (closed tokens)[i].isEnd = false)
    (hdo : (closed tokens)[i].literal ≠ "do") :
    ∃ again last : Diagnostic,
      (heldAt tokens errors i).run .program = (.program ⟨[]⟩, { heldAt tokens errors i with
        errors := errors ++ (List.replicate (2 * (closed tokens).length) again ++ [last]) }) ∧
      again.position = (closed tokens)[i].position ∧
      again.message ≠ "Too many iterations, possible infinite loop; parsing stopped" ∧
      last.position = (closed tokens)[i].position ∧
      last.message = "Too many iterations, possible infinite loop; parsing stopped" := by
  have hcurrent : (heldAt tokens errors i).feed.current = (closed tokens)[i] :=
    Feed.current_atIndex hi
  obtain ⟨c, hc, hrounds⟩ :=
    Parse.statements_of_sticks (f := (heldAt tokens errors i).feed) rfl
      (by rw [Feed.atEnd, hcurrent, hend]) (by rw [hcurrent]; exact hdo)
  obtain ⟨hitems, hfeed, herrors⟩ := hrounds (Parse.allowance (closed tokens).length)
  rw [hcurrent] at herrors
  refine ⟨⟨.grammar, c, (closed tokens)[i].position⟩,
    ⟨.grammar, .tooManyRounds, (closed tokens)[i].position⟩, ?_, rfl,
    Complaint.message_ne_of_ofReading hc, rfl, rfl⟩
  have hrun : (heldAt tokens errors i).run .program =
      (.program ⟨(Parse.statements (Parse.allowance (closed tokens).length)
          (heldAt tokens errors i).feed).items⟩,
        (heldAt tokens errors i).after
          (Parse.statements (Parse.allowance (closed tokens).length)
            (heldAt tokens errors i).feed).feed
          (Parse.statements (Parse.allowance (closed tokens).length)
            (heldAt tokens errors i).feed).notes) := rfl
  rw [hrun, hitems, hfeed, after, herrors]
  rfl

/-- A character outside the alphabet, in front of a sign of assignment. -/
def strangeTokens : List Token := [⟨⟨.error, "@"⟩, ⟨1, 1⟩⟩, ⟨⟨.symbol, "="⟩, ⟨1, 2⟩⟩]

/-- A held program in front of a strange character raises one error again and again, and then gives
up. -/
theorem program_held_strangeTokens :
    0 < (closed strangeTokens).length ∧ (closed strangeTokens)[0].isEnd = false ∧
      (closed strangeTokens)[0].literal ≠ "do" ∧
      ∃ again last : Diagnostic,
        (heldAt strangeTokens [] 0).run .program =
          (.program ⟨[]⟩, { heldAt strangeTokens [] 0 with
            errors := [again, again, again, again, again, again, last] }) ∧
        again.position = ⟨1, 1⟩ ∧ last.position = ⟨1, 1⟩ := by
  have hend : (closed strangeTokens)[0].isEnd = false := by decide
  have hdo : (closed strangeTokens)[0].literal ≠ "do" := by decide
  have hlen : 0 < (closed strangeTokens).length := by decide
  obtain ⟨again, last, hrun, hagain, -, hlast, -⟩ :=
    program_held strangeTokens [] 0 hlen hend hdo
  exact ⟨hlen, hend, hdo, again, last, hrun, hagain, hlast⟩

end Session

end DoWhile
