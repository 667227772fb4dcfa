import DoWhile.Proofs.Parse.Composition

/-!
# Resumption behind a broken loop

Two parts of a loop may be broken without harm to what stands behind the loop. A loop that lacks its
opening brace is read on from the word before its condition, whatever is skipped in between
(`parse_unopened`). A condition that does not begin with a comparison costs its loop, and reading
goes on behind the closing parenthesis and the semicolon, if there is one (`parse_spoilt`). In both
cases there is one diagnostic, and the rest is read as if the loop had never been there.
-/

set_option autoImplicit false

namespace DoWhile

namespace Grammar

/-! ## Conditions that are no comparison -/

/-- Tokens that do not begin with a comparison, and what is said of them: the first of the three
tokens of a comparison that is not as it has to be is the one that is found. -/
inductive NoComparison : List Token → Diagnostic → Prop
  | left {t : Token} {ts : List Token} (ht : t.operand? = none) :
      NoComparison (t :: ts) (t.wants .operand t.toLexeme)
  | sign {a t : Token} {ts : List Token} {left : Expr} (ha : a.operand? = some left)
      (ht : t.isMark "==" = false) :
      NoComparison (a :: t :: ts) (a.wants .comparisonSign t.toLexeme)
  | right {a o t : Token} {ts : List Token} {left : Expr} (ha : a.operand? = some left)
      (ho : o.isMark "==" = true) (ht : t.operand? = none) :
      NoComparison (a :: o :: t :: ts) (t.wants .operand t.toLexeme)

/-- What is said of the tokens does not depend on those behind them. -/
theorem NoComparison.append {ts : List Token} {d : Diagnostic} (h : NoComparison ts d)
    (us : List Token) : NoComparison (ts ++ us) d := by
  cases h with
  | left ht => exact .left ht
  | sign ha ht => exact .sign ha ht
  | right ha ho ht => exact .right ha ho ht

/-- What is said of the tokens is said at one of them. -/
theorem NoComparison.exists_token {ts : List Token} {d : Diagnostic} (h : NoComparison ts d) :
    ∃ t ∈ ts, d.position = t.position := by
  cases h with
  | @left t ts _ => exact ⟨t, by simp, rfl⟩
  | @sign a t ts _ _ _ => exact ⟨a, by simp, rfl⟩
  | @right a o t ts _ _ _ _ => exact ⟨t, by simp, rfl⟩

/-- Up to a closing parenthesis, tokens begin with a comparison or there is something to say of
them. -/
theorem exists_noComparison {ts : List Token} {closing : Token}
    (hclosing : closing.isMark ")" = true)
    (hts : ∀ front test, front <+: ts → ¬ Comparison front test) :
    ∃ d, NoComparison (ts ++ [closing]) d := by
  have hnone := Token.operand?_of_isMark hclosing
  match ts, hts with
  | [], _ => exact ⟨_, .left hnone⟩
  | a :: ts, hts =>
      cases ha : a.operand? with
      | none => exact ⟨_, .left ha⟩
      | some left =>
          match ts, hts with
          | [], _ => exact ⟨_, .sign ha (Lexeme.not_isMark_of_ne hclosing (by decide))⟩
          | o :: ts, hts =>
              cases ho : o.isMark "==" with
              | false => exact ⟨_, .sign ha ho⟩
              | true =>
                  match ts, hts with
                  | [], _ => exact ⟨_, .right ha ho hnone⟩
                  | b :: ts, hts =>
                      cases hb : b.operand? with
                      | none => exact ⟨_, .right ha ho hb⟩
                      | some right => exact absurd (.mk ha ho hb) (hts [a, o, b] _ (by simp))

/-- A loop up to its closing parenthesis, with tokens in its parentheses that do not begin with a
comparison. These and the closing parenthesis are listed apart. -/
inductive SpoiltLoop : List Token → List Token → Prop
  | mk {first opening closing word left right : Token} {ts spoilt : List Token} {body : List Stmt}
      (hfirst : first.isMark "do" = true) (hopening : opening.isMark "\x7b" = true)
      (hbody : Body ts body) (hclosing : closing.literal = "\x7d")
      (hword : word.isMark "while" = true) (hleft : left.isMark "(" = true)
      (hspoilt : ∀ t ∈ spoilt, t.isEnd = false ∧ t.literal ≠ ")")
      (hnone : ∀ front test, front <+: spoilt → ¬ Comparison front test)
      (hright : right.isMark ")" = true) :
      SpoiltLoop (first :: opening :: (ts ++ closing :: word :: left :: (spoilt ++ [right])))
        (spoilt ++ [right])

/-- A loop with a spoilt condition has a first and a last token, neither of them the end of the
input, and in its parentheses no comparison. -/
theorem SpoiltLoop.exists_cons {loop test : List Token} (h : SpoiltLoop loop test) :
    ∃ first us, loop = first :: us ∧ first.isEnd = false ∧ (us.getLastD first).isEnd = false ∧
      ∃ d, NoComparison test d := by
  cases h with
  | @mk first opening closing word left right ts spoilt body hfirst _ _ _ _ _ _ hnone hright =>
      refine ⟨first, _, rfl, Token.isEnd_of_isMark hfirst, ?_, exists_noComparison hright hnone⟩
      rw [← List.cons_append, getLastD_append_cons, List.getLastD_cons, List.getLastD_cons,
        getLastD_append_cons, List.getLastD_nil]
      exact Token.isEnd_of_isMark hright

end Grammar

namespace Parse

open Grammar

variable {f g : Feed}

/-- A comparison that fails stays where it began, or it goes on to the token behind its sign. -/
theorem ends_comparison {d : Diagnostic} (hf : f.Live)
    (hnone : NoComparison (f.current :: f.following) d) :
    ∃ h, comparison.Ends f none [d] h ∧
      (h = f ∨ ∃ left, f.current.operand? = some left ∧ f.peek.isMark "==" = true ∧
        h = f.advance.advance) := by
  generalize hcurrent : f.current = a at hnone
  generalize hfollowing : f.following = us at hnone
  subst hcurrent
  cases hnone with
  | left ht => exact ⟨f, (ends_operand_of_none ht).bind_none, .inl rfl⟩
  | @sign _ t ts left ha ht =>
      have hpeek : f.peek = t := by rw [Feed.peek, hfollowing, List.headD_cons]
      have hoperand : operand.Yields f left f := yields_operand.mpr ⟨ha, rfl⟩
      have hsign : (expect "==" .comparisonSign).Ends f none
          [f.current.wants .comparisonSign f.peek.toLexeme] f :=
        ends_expect_of_not (by rw [hpeek, ht])
      rw [hpeek] at hsign
      exact ⟨f, hoperand.bind_ends hsign.bind_none, .inl rfl⟩
  | @right _ o t ts left ha ho ht =>
      have hpeek : f.peek = o := by rw [Feed.peek, hfollowing, List.headD_cons]
      have hoperand : operand.Yields f left f := yields_operand.mpr ⟨ha, rfl⟩
      have hnext : f.advance.advance.current = t := by
        rw [Feed.current_advance hf.advance.free, Feed.peek, Feed.following_advance hf.free,
          hfollowing]
        rfl
      subst hnext
      have hsign : f.peek.isMark "==" = true := by rw [hpeek, ho]
      refine ⟨f.advance.advance, hoperand.bind_ends (.expect_bind hsign (.advance_bind ?_)),
        .inr ⟨left, ha, hsign, rfl⟩⟩
      exact (ends_operand_of_none ht).bind_none

/-- Wherever a comparison fails in front of a closing parenthesis, the parenthesis is found from
there. -/
theorem ends_comparison_of_passes {ts : List Token} {d : Diagnostic} (hf : f.Live)
    (hpasses : f.Passes ts g) (hts : ∀ t ∈ ts, t.isEnd = false ∧ t.literal ≠ ")")
    (hclosing : g.current.isMark ")" = true) (hnone : NoComparison (ts ++ [g.current]) d) :
    ∃ h, comparison.Ends f none [d] h ∧ h.skipTo ")" = g := by
  have hskip : f.skipTo ")" = g := by
    apply Feed.skipTo_of_passes hf hpasses hts
    simp [Feed.stopsAt, Lexeme.literal_of_isMark hclosing]
  have htokens : ts ++ [g.current] ++ g.following = f.current :: f.following := by
    rw [List.append_assoc, List.singleton_append, hpasses.tokens]
  have hnone' := hnone.append g.following
  rw [htokens] at hnone'
  obtain ⟨h, hends, rfl | ⟨left, hoperand, hsign, rfl⟩⟩ := ends_comparison hf hnone'
  · exact ⟨h, hends, hskip⟩
  -- neither the operand nor the sign in front of the failure is the parenthesis
  have hgoes : Feed.stopsAt ")" f = false := by
    cases ts with
    | nil =>
        obtain rfl := hpasses.eq_of_nil
        rw [Token.not_isMark_of_operand? hoperand] at hclosing
        exact absurd hclosing (by decide)
    | cons t ts =>
        obtain ⟨hcurrent, -⟩ := hpasses.of_cons hf.free
        obtain ⟨hend, hne⟩ := hts t List.mem_cons_self
        simp [Feed.stopsAt, Feed.atEnd, hcurrent, hend, hne]
  have hgoes' : Feed.stopsAt ")" f.advance = false := by
    have hend := Token.isEnd_of_isMark hsign
    simp [Feed.stopsAt, Feed.atEnd, Feed.current_advance hf.free, hend,
      Lexeme.literal_of_isMark hsign]
  refine ⟨_, hends, ?_⟩
  rw [← Feed.skipTo_advance hf.advance hgoes', ← Feed.skipTo_advance hf hgoes, hskip]

/-- A condition that does not begin with a comparison ends on its closing parenthesis, or on the
semicolon behind that. -/
theorem ends_condition_of_noComparison {left right : Token} {ts : List Token} {d : Diagnostic}
    (hf : f.Live) (hleft : left.isMark "(" = true) (hright : right.isMark ")" = true)
    (hts : ∀ t ∈ ts, t.isEnd = false ∧ t.literal ≠ ")") (hnone : NoComparison (ts ++ [right]) d)
    (hmoves : f.Moves (left :: (ts ++ [right])) g) :
    condition.Ends f none [d] (if g.peekIs ";" = true then g.advance else g) := by
  obtain ⟨hpeek, -, hlive, hmoves'⟩ := hf.of_cons hmoves
  have hne : f.advance.following ≠ [] := by
    apply hf.following_advance_ne_nil
    rw [hpeek, Token.isEnd_of_isMark hleft]
  obtain ⟨hpasses, rfl⟩ := (Feed.moves_concat_iff hlive.free hne).mp hmoves'
  obtain ⟨h, hends, hskip⟩ := ends_comparison_of_passes hlive.advance hpasses hts hright hnone
  have hpast : h.pastCondition = if g.peekIs ";" = true then g.advance else g := by
    simp [Feed.pastCondition, hskip, Lexeme.literal_of_isMark hright]
  rw [← hpast]
  exact .expect_bind (by rw [hpeek, hleft]) (.advance_bind hends.orMove.bind_none)

/-- A loop whose condition does not begin with a comparison ends where its condition does. -/
theorem ends_statement_of_noComparison {us test : List Token} {d : Diagnostic} (hf : f.Live)
    (hloop : SpoiltLoop (f.current :: us) test) (hnone : NoComparison test d)
    (hmoves : f.Moves us g) :
    statement.Ends f none [d] (if g.peekIs ";" = true then g.advance else g) := by
  generalize hcurrent : f.current = first at hloop
  cases hloop with
  | mk hfirst hopening hbody hclosing hword hleft hspoilt _ hright =>
      have hloop := ends_loop hf hopening hword hmoves
        (fun h hlive hpasses hcurrent =>
          (yields_closedBody_of_body hbody hlive hpasses (by rw [hcurrent, hclosing])).ends)
        (fun h hlive _ hmoves =>
          ends_condition_of_noComparison hlive hleft hright hspoilt hnone hmoves)
      rw [List.nil_append] at hloop
      exact hloop.congr (statement_of_do (by rw [hcurrent, Lexeme.literal_of_isMark hfirst]))

/-! ## Loops without an opening brace -/

/-- A loop without its opening brace is read on from the first word that may stand before its
condition. -/
theorem ends_loop_unopened {skipped us : List Token} {word : Token} {test : Expr} (hf : f.Live)
    (hopening : f.peek.isMark "\x7b" = false)
    (hskipped : ∀ t ∈ f.current :: skipped, t.isEnd = false ∧ t.literal ≠ "while")
    (hword : word.isMark "while" = true) (htest : Condition (word :: us) test)
    (hmoves : f.Moves (skipped ++ word :: us) g) :
    loop.Ends f (some (.loop [] test f.current.position))
      [f.current.wants .openingBrace f.peek.toLexeme] g := by
  rw [List.append_cons] at hmoves
  obtain ⟨h, hskips, hmoves'⟩ := hmoves.of_append
  obtain ⟨hpasses, hcurrent⟩ := hskips.passes_concat
  have hskip : f.skipTo "while" = h := by
    apply Feed.skipTo_of_passes hf hpasses hskipped
    simp [Feed.stopsAt, hcurrent, Lexeme.literal_of_isMark hword]
  have hseek : seekCondition.Yields f () h := by
    rw [← hskip]
    apply yields_seekCondition
    rw [hskip, hcurrent, Token.isEnd_of_isMark hword]
  have hcondition : condition.Yields h test g := by
    rw [yields_condition_iff (hf.of_moves hskips), hcurrent]
    exact ⟨us, hmoves', htest⟩
  have hbare : (bare f.current).Ends f (some (.loop [] test f.current.position)) [] g := by
    refine hseek.bind_ends (hcondition.bind_ends ?_)
    exact (yields_pure.mpr ⟨rfl, rfl⟩).ends
  exact ends_loop_of_no_opening hopening hbare

end Parse

/-! ## Whole token lists -/

/-- **A missing opening brace costs the body of its loop.** From the first token of a loop, anything
but an opening brace is skipped up to the word before the condition. The loop is parsed with an
empty body and its condition, the token in front of which the brace is missing is named at the place
of the first one, and the rest is read as if nothing had come before. -/
theorem parse_unopened (first word : Token) (skipped us rest : List Token) (test : Expr)
    (hfirst : first.isMark "do" = true)
    (hskipped : ∀ t ∈ skipped, t.isEnd = false ∧ t.literal ≠ "while")
    (hopening : ∀ t ∈ skipped.head?, t.isMark "\x7b" = false)
    (hword : word.isMark "while" = true) (htest : Grammar.Condition (word :: us) test) :
    ∃ d : Diagnostic,
      d.message = "Expected '\x7b' after 'do', got " ++ (skipped.headD word).describe ∧
      d.position = first.position ∧
      ReadApart (first :: (skipped ++ word :: us)) rest [.loop [] test first.position] [d] := by
  refine ⟨first.wants .openingBrace (skipped.headD word).toLexeme, rfl, rfl, ?_⟩
  have hend := Token.isEnd_of_isMark hfirst
  apply readApart_of_ends (v := some (.loop [] test first.position)) rest hend
  · rw [getLastD_append_cons]
    exact Parse.isEnd_last_of_condition htest
  · rintro f g hf rfl hmoves -
    have hpeek : f.peek = skipped.headD word := by
      rw [Feed.peek, hmoves.following]
      cases skipped <;> rfl
    have hnone : f.peek.isMark "\x7b" = false := by
      rw [hpeek]
      cases skipped with
      | nil => exact Lexeme.not_isMark_of_ne hword (by decide)
      | cons t ts => exact hopening t rfl
    have hskipped' : ∀ t ∈ f.current :: skipped, t.isEnd = false ∧ t.literal ≠ "while" := by
      refine List.forall_mem_cons.mpr ⟨⟨hend, ?_⟩, hskipped⟩
      rw [Lexeme.literal_of_isMark hfirst]
      decide
    rw [← hpeek]
    exact (Parse.ends_loop_unopened hf hnone hskipped' hword htest hmoves).congr
      (Parse.statement_of_do (Lexeme.literal_of_isMark hfirst))

/-- The tokens `; \x7b do \x7d` where a body would have to open. -/
def skippedTokens : List Token :=
  [⟨⟨.symbol, ";"⟩, ⟨1, 4⟩⟩, ⟨⟨.symbol, "\x7b"⟩, ⟨1, 6⟩⟩, ⟨⟨.reserved, "do"⟩, ⟨1, 8⟩⟩,
    ⟨⟨.symbol, "\x7d"⟩, ⟨1, 11⟩⟩]

/-- A condition behind the word that stands before it. -/
def conditionTokens : List Token :=
  [⟨⟨.symbol, "("⟩, ⟨1, 18⟩⟩, ⟨⟨.identifier, "a"⟩, ⟨1, 19⟩⟩, ⟨⟨.symbol, "=="⟩, ⟨1, 20⟩⟩,
    ⟨⟨.number, "9"⟩, ⟨1, 22⟩⟩, ⟨⟨.symbol, ")"⟩, ⟨1, 23⟩⟩, ⟨⟨.symbol, ";"⟩, ⟨1, 24⟩⟩]

/-- A loop without its opening brace is read up to the first semicolon behind its condition, with
one error. -/
theorem parse_unopened_skippedTokens :
    (∀ t ∈ skippedTokens, t.isEnd = false ∧ t.literal ≠ "while") ∧
      (∀ t ∈ skippedTokens.head?, t.isMark "\x7b" = false) ∧
      ∃ d : Diagnostic, d.message = "Expected '\x7b' after 'do', got ';'" ∧ d.position = ⟨1, 1⟩ ∧
        ReadApart (⟨⟨.reserved, "do"⟩, ⟨1, 1⟩⟩ ::
            (skippedTokens ++ ⟨⟨.reserved, "while"⟩, ⟨1, 13⟩⟩ :: conditionTokens)) openLoopTokens
          [.loop [] (.binary (.identifier "a" ⟨1, 19⟩) "==" (.number "9" ⟨1, 22⟩) ⟨1, 19⟩) ⟨1, 1⟩]
          [d] := by
  have hskipped : ∀ t ∈ skippedTokens, t.isEnd = false ∧ t.literal ≠ "while" := by decide
  have hopening : ∀ t ∈ skippedTokens.head?, t.isMark "\x7b" = false := by decide
  refine ⟨hskipped, hopening, ?_⟩
  exact parse_unopened ⟨⟨.reserved, "do"⟩, ⟨1, 1⟩⟩ ⟨⟨.reserved, "while"⟩, ⟨1, 13⟩⟩ skippedTokens
    conditionTokens openLoopTokens _ rfl hskipped hopening rfl (.mk rfl (.mk rfl rfl rfl) rfl rfl)

/-- **A condition that is no comparison costs its loop.** Of a loop with tokens in its parentheses
that do not begin with a comparison, nothing is parsed, and there is one diagnostic at one of these
tokens or at the closing parenthesis. That is so with a semicolon behind the loop, which belongs to
it, and in front of anything that does not begin with one. Either way the rest is read as if nothing
had come before. -/
theorem parse_spoilt (loop test : List Token) (hloop : Grammar.SpoiltLoop loop test) :
    ∃ d, Grammar.NoComparison test d ∧ (∃ t ∈ test, d.position = t.position) ∧
      (∀ (semicolon : Token) (rest : List Token), semicolon.isMark ";" = true →
        ReadApart (loop ++ [semicolon]) rest [] [d]) ∧
      ∀ rest : List Token, (∀ t ∈ rest.head?, t.isMark ";" = false) →
        ReadApart loop rest [] [d] := by
  obtain ⟨first, us, rfl, hfirst, hlast, d, hnone⟩ := hloop.exists_cons
  refine ⟨d, hnone, hnone.exists_token, fun semicolon rest hsemicolon => ?_, fun rest hrest => ?_⟩
  · rw [List.cons_append]
    apply readApart_of_ends (v := none) rest hfirst
    · rw [getLastD_append_cons]
      exact Token.isEnd_of_isMark hsemicolon
    · rintro f g hf rfl hmoves -
      obtain ⟨h, hmoves', hstep⟩ := hmoves.of_append
      obtain ⟨hpeek, -, -, hstays⟩ := (hf.of_moves hmoves').of_cons hstep
      obtain rfl := hstays.eq_of_nil
      have hends := Parse.ends_statement_of_noComparison hf hloop hnone hmoves'
      rwa [if_pos (by rw [Feed.peekIs, hpeek, hsemicolon])] at hends
  · apply readApart_of_ends (v := none) rest hfirst hlast
    rintro f g hf rfl hmoves hfront
    have hnext : g.peekIs ";" = false := by
      rw [Feed.peekIs, hfront]
      cases rest with
      | nil => rfl
      | cons t ts => exact hrest t rfl
    have hends := Parse.ends_statement_of_noComparison hf hloop hnone hmoves
    rwa [if_neg (by simp [hnext])] at hends

/-- The tokens `do \x7b \x7d while ( a + 9 )`. -/
def sumLoopTokens : List Token :=
  [⟨⟨.reserved, "do"⟩, ⟨1, 1⟩⟩, ⟨⟨.symbol, "\x7b"⟩, ⟨1, 4⟩⟩, ⟨⟨.symbol, "\x7d"⟩, ⟨1, 6⟩⟩,
    ⟨⟨.reserved, "while"⟩, ⟨1, 8⟩⟩, ⟨⟨.symbol, "("⟩, ⟨1, 14⟩⟩, ⟨⟨.identifier, "a"⟩, ⟨1, 15⟩⟩,
    ⟨⟨.symbol, "+"⟩, ⟨1, 17⟩⟩, ⟨⟨.number, "9"⟩, ⟨1, 19⟩⟩, ⟨⟨.symbol, ")"⟩, ⟨1, 20⟩⟩]

/-- A loop whose condition is a sum is given up at its closing parenthesis, with or without a
semicolon behind. -/
theorem parse_spoilt_sumLoopTokens :
    Grammar.SpoiltLoop sumLoopTokens (sumLoopTokens.drop 5) ∧
      ∃ d, Grammar.NoComparison (sumLoopTokens.drop 5) d ∧
        ReadApart (sumLoopTokens ++ [⟨⟨.symbol, ";"⟩, ⟨1, 21⟩⟩]) openLoopTokens [] [d] ∧
        ReadApart sumLoopTokens openLoopTokens [] [d] := by
  have hnone : ∀ front test, front <+: (sumLoopTokens.drop 5).take 3 →
      ¬ Grammar.Comparison front test := by
    rintro front test hfront @⟨a, o, b, left, right, -, hsign, -⟩
    obtain ⟨rest, hrest⟩ := hfront
    obtain rfl : o = ⟨⟨.symbol, "+"⟩, ⟨1, 17⟩⟩ := (List.cons.inj (List.cons.inj hrest).2).1
    exact absurd hsign (by decide)
  have hloop : Grammar.SpoiltLoop sumLoopTokens (sumLoopTokens.drop 5) :=
    @Grammar.SpoiltLoop.mk _ _ _ _ _ _ [] _ [] rfl rfl .nil rfl rfl rfl (by decide) hnone rfl
  obtain ⟨d, hd, -, hclosed, hopen⟩ := parse_spoilt sumLoopTokens (sumLoopTokens.drop 5) hloop
  exact ⟨hloop, d, hd, hclosed _ openLoopTokens rfl, hopen openLoopTokens (by decide)⟩

end DoWhile
