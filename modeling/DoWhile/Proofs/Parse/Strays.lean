import DoWhile.Proofs.Parse.Ending
import DoWhile.Proofs.Parse.Recovery
import DoWhile.Proofs.Parse.Rounds

/-!
# Stray tokens

Statements may have stray tokens between them, and so may the assignments of a loop body
(`Grammar.Strewn`). A stray token is one with which nothing can begin where it stands: outside of
loops it is neither `int` nor `do`, in a body it is no closing brace, and in neither place is it an
identifier right in front of a sign of assignment. What a stray token is depends on the token behind
it and on nothing else, so a row is read round by round: a statement gives its value, a stray token
one diagnostic at its place (`BodyRun.strewn`, `row_strewn`). No statement is lost (`parse_strewn`).
-/

set_option autoImplicit false

namespace DoWhile

/-- Is the token an identifier with a sign of assignment as the first of the tokens behind it? -/
def Token.opensAssignment (t : Token) (ts : List Token) : Bool :=
  t.kind = .identifier && ts.head?.any fun u => u.isMark "="

/-- A token that belongs to no statement, outside of loops or in the body of one. -/
inductive Stray where
  | outside (t : Token)
  | inBody (t : Token)
  deriving DecidableEq, Repr, Inhabited

/-- What is said of a stray token. -/
def Stray.diagnostic : Stray → Diagnostic
  | outside t => ⟨.grammar, .unexpected t.toLexeme, t.position⟩
  | inBody t => ⟨.grammar, .expected .bodyAssignment t.toLexeme, t.position⟩

/-- No identifier is spelled like anything that is no identifier. -/
theorem Token.literal_ne_of_kind {t : Token} {w : String} (ht : t.isProper = true)
    (hkind : t.kind = .identifier) (hw : Lexeme.isProper ⟨.identifier, w⟩ = false) :
    t.literal ≠ w := by
  rintro rfl
  have heq : t.toLexeme = ⟨.identifier, t.literal⟩ := by rw [← hkind]
  rw [heq, hw] at ht
  exact absurd ht (by decide)

namespace Grammar

/-- Statements in a row of blocks with stray tokens between the blocks. A block may have stray
tokens of its own; all are listed in order. `Loose t ts` tells which tokens may stray in front of
`ts`. -/
inductive Strewn (Block : List Token → Stmt → List Stray → Prop)
    (Loose : Token → List Token → Prop) (stray : Token → Stray) :
    List Token → List Stmt → List Stray → Prop
  | nil : Strewn Block Loose stray [] [] []
  | statement {block ts : List Token} {s : Stmt} {ss : List Stmt} {inner strays : List Stray}
      (hs : Block block s inner) (hss : Strewn Block Loose stray ts ss strays) :
      Strewn Block Loose stray (block ++ ts) (s :: ss) (inner ++ strays)
  | stray {t : Token} {ts : List Token} {ss : List Stmt} {strays : List Stray}
      (ht : Loose t ts) (hss : Strewn Block Loose stray ts ss strays) :
      Strewn Block Loose stray (t :: ts) ss (stray t :: strays)

/-- May the token stray in a loop body, in front of `ts`? -/
structure LooseInBody (t : Token) (ts : List Token) : Prop where
  notClosing : t.literal ≠ "\x7d"
  notOpening : t.opensAssignment ts = false

/-- May the token stray outside of loops, in front of `ts`? -/
structure LooseOutside (t : Token) (ts : List Token) : Prop where
  notInt : t.literal ≠ "int"
  notDo : t.literal ≠ "do"
  notOpening : t.opensAssignment ts = false

/-- The assignments of a loop body with stray tokens between them. -/
def StrewnBody : List Token → List Stmt → List Stray → Prop :=
  Strewn (fun block s inner => AssignmentBlock block s ∧ inner = []) LooseInBody .inBody

/-- The block of a statement, where the body of a loop may have stray tokens. -/
inductive StrewnStatement : List Token → Stmt → List Stray → Prop
  | declaration {first : Token} {us : List Token} {s : Stmt} (hfirst : first.literal = "int")
      (hs : Declaration (first :: us) s) : StrewnStatement (first :: us) s []
  | assignment {ts : List Token} {s : Stmt} (hs : AssignmentBlock ts s) : StrewnStatement ts s []
  | loop {first opening closing word : Token} {ts us : List Token} {body : List Stmt} {test : Expr}
      {strays : List Stray} (hfirst : first.literal = "do")
      (hopening : opening.isMark "\x7b" = true) (hbody : StrewnBody ts body strays)
      (hclosing : closing.literal = "\x7d")
      (hword : word.isMark "while" = true) (htest : Condition (word :: us) test) :
      StrewnStatement (first :: opening :: (ts ++ closing :: word :: us))
        (.loop body test first.position) strays

/-- A statement with stray tokens is not empty. -/
theorem StrewnStatement.exists_cons {block : List Token} {s : Stmt} {strays : List Stray}
    (h : StrewnStatement block s strays) : ∃ first us, block = first :: us := by
  cases h with
  | declaration _ _ => exact ⟨_, _, rfl⟩
  | assignment hs =>
      cases hs
      exact ⟨_, _, rfl⟩
  | loop _ _ _ _ _ _ => exact ⟨_, _, rfl⟩

/-- Statements with stray tokens between them and in the bodies of their loops. -/
def StrewnStatements : List Token → List Stmt → List Stray → Prop :=
  Strewn StrewnStatement LooseOutside .outside

end Grammar

namespace Parse

open Grammar

variable {f g : Feed}

/-! ## One round -/

/-- The token behind the current one is the first of those that are passed next, and the one where
that ends if there are none. -/
theorem peek_of_passes {t : Token} {ts : List Token} (h : f.Passes (t :: ts) g) :
    f.peek = ts.headD g.current := by
  have htokens := (List.cons.inj h.tokens).2
  rw [Feed.peek, htokens]
  cases ts <;> rfl

/-- A token that opens no assignment starts none, if none is opened by the token behind the row. -/
theorem startsAssignment_of_passes {t : Token} {ts : List Token} (hf : f.Live)
    (h : f.Passes (t :: ts) g) (ht : t.opensAssignment ts = false)
    (hg : g.current.isMark "=" = false) : startsAssignment f = false := by
  have hpeek := peek_of_passes h
  rw [startsAssignment, (h.of_cons hf.free).1, Feed.peekIs, hpeek]
  rw [Token.opensAssignment] at ht
  cases ts with
  | nil =>
      rw [List.headD_nil, hg, Bool.and_false]
  | cons u us => exact ht

/-! ## Loop bodies -/

/-- A stray token in a loop body is rejected. -/
theorem bodyItem_of_stray (h : startsAssignment f = false) :
    bodyItem f = reject (.expected .bodyAssignment f.current.toLexeme) f := by
  rw [bodyItem, if_neg (by simp [h])]

/-- No body ends in front of an identifier. -/
theorem endsBody_of_identifier (hproper : f.current.isProper = true)
    (hkind : f.current.kind = .identifier) : endsBody f = false := by
  have hopen := Token.literal_ne_of_kind hproper hkind (w := "\x7d") rfl
  simp [endsBody, Feed.atEnd, Token.isEnd_of_kind hkind, hopen]

/-- A round that reads an assignment, in front of the rest of a body. -/
theorem BodyRun.next_assignment {block ts : List Token} {s : Stmt} {ss : List Stmt}
    {ds : List Diagnostic} {st : Stretch} (hs : AssignmentBlock block s) (h : BodyRun f st)
    (hf : f.Live) (hproper : ∀ t ∈ block, t.isProper = true) (hpasses : f.Passes (block ++ ts) g)
    (hrest : ∀ (f' : Feed) (rest : Stretch), BodyRun f' rest → f'.Live → f'.Passes ts g →
      rest.Ends ss ds g) : st.Ends (s :: ss) ds g := by
  obtain @⟨first, us, _, hkind, hspells⟩ := hs
  obtain ⟨rfl, h', hmoves, -, hpasses'⟩ := hpasses.moves_of_append hf.free
  have hyields : bodyItem.Yields f s h' :=
    (yields_bodyItem_iff hf).mpr ⟨hkind, us, hmoves, hspells⟩
  have hends := endsBody_of_identifier (hproper f.current List.mem_cons_self) hkind
  exact h.next hf hends hyields.ends (by simp) fun rest hrun =>
    hrest _ rest hrun (hf.of_moves hmoves).advance hpasses'

/-- A round that stops at a stray token, in front of the rest of a body. -/
theorem BodyRun.next_stray {t : Token} {ts : List Token} {ss : List Stmt} {ds : List Diagnostic}
    {st : Stretch} (ht : LooseInBody t ts) (h : BodyRun f st) (hf : f.Live)
    (hproper : t.isProper = true) (hpasses : f.Passes (t :: ts) g)
    (hg : g.current.literal = "\x7d")
    (hrest : ∀ (f' : Feed) (rest : Stretch), BodyRun f' rest → f'.Live → f'.Passes ts g →
      rest.Ends ss ds g) : st.Ends ss ((Stray.inBody t).diagnostic :: ds) g := by
  have hstop : g.current.isMark "=" = false := by simp [Lexeme.isMark, hg]
  have hstarts := startsAssignment_of_passes hf hpasses ht.notOpening hstop
  obtain ⟨rfl, hpasses'⟩ := hpasses.of_cons hf.free
  have hitem : bodyItem.Ends f none [(Stray.inBody f.current).diagnostic] f :=
    (ends_reject (.expected .bodyAssignment f.current.toLexeme) f).congr (bodyItem_of_stray hstarts)
  have hends : endsBody f = false := by
    simp [endsBody, Feed.atEnd, Token.isEnd_of_isProper hproper, ht.notClosing]
  exact h.next hf hends hitem (fun _ => ht.notClosing) fun rest hrun =>
    hrest _ rest hrun hf.advance hpasses'

/-- A loop body with stray tokens in it is read with its assignments, and with one diagnostic for
each stray token. -/
theorem BodyRun.strewn {ts : List Token} {ss : List Stmt} {strays : List Stray} {st : Stretch}
    (hbody : StrewnBody ts ss strays) (h : BodyRun f st) (hf : f.Live)
    (hproper : ∀ t ∈ ts, t.isProper = true) (hpasses : f.Passes ts g)
    (hg : g.current.literal = "\x7d") : st.Ends ss (strays.map Stray.diagnostic) g := by
  unfold StrewnBody at hbody
  induction hbody generalizing f st with
  | nil =>
      obtain rfl := hpasses.eq_of_nil
      rw [h.eq_of_endsBody (by simp [endsBody, hg])]
      exact ⟨rfl, rfl, rfl⟩
  | @statement block ts s ss inner strays hs hss ih =>
      obtain ⟨hblock, rfl⟩ := hs
      exact h.next_assignment hblock hf (fun t ht => hproper t (List.mem_append_left ts ht)) hpasses
        fun f' rest hrun hlive hpasses' =>
          ih hrun hlive (fun t ht => hproper t (List.mem_append_right block ht)) hpasses'
  | @stray t ts ss strays ht hss ih =>
      exact h.next_stray ht hf (hproper t List.mem_cons_self) hpasses hg
        fun f' rest hrun hlive hpasses' =>
          ih hrun hlive (fun u hu => hproper u (List.mem_cons_of_mem t hu)) hpasses'

/-! ## Statements -/

/-- A loop with stray tokens in its body gives its assignments, and one diagnostic for each of the
stray tokens. -/
theorem ends_strewnLoop {opening closing word : Token} {ts us : List Token} {body : List Stmt}
    {test : Expr} {strays : List Stray} (hf : f.Live) (hopening : opening.isMark "\x7b" = true)
    (hbody : StrewnBody ts body strays) (hclosing : closing.literal = "\x7d")
    (hword : word.isMark "while" = true) (htest : Condition (word :: us) test)
    (hproper : ∀ t ∈ ts, t.isProper = true)
    (hmoves : f.Moves (opening :: (ts ++ closing :: word :: us)) g) :
    loop.Ends f (some (.loop body test f.current.position)) (strays.map Stray.diagnostic) g := by
  refine ends_loop_of_condition hf hopening hclosing hword htest hmoves ?_
  rintro h hlive hpasses rfl
  exact (bodyRun_body f.advance.advance).strewn hbody hlive hproper hpasses hclosing

/-- A statement with stray tokens in its body is read, and each of these is complained of. -/
theorem ends_strewnStatement {us : List Token} {s : Stmt} {strays : List Stray} (hf : f.Live)
    (hs : StrewnStatement (f.current :: us) s strays)
    (hproper : ∀ t ∈ f.current :: us, t.isProper = true) (hmoves : f.Moves us g) :
    statement.Ends f (some s) (strays.map Stray.diagnostic) g := by
  have hfirst := hproper f.current List.mem_cons_self
  cases hs with
  | declaration hint hs =>
      exact ((yields_statement_iff hf).mpr ⟨us, hmoves, .declaration hint hs⟩).ends
  | assignment hs =>
      cases hs with
      | mk hkind hs =>
          have hint := Token.literal_ne_of_kind hfirst hkind (w := "int") rfl
          have hdo := Token.literal_ne_of_kind hfirst hkind (w := "do") rfl
          exact ((yields_statement_iff hf).mpr ⟨us, hmoves, .assignment hkind hint hdo hs⟩).ends
  | loop hdo hopening hbody hclosing hword htest =>
      have hends := ends_strewnLoop hf hopening hbody hclosing hword htest
        (fun t ht => hproper t (by simp [ht])) hmoves
      exact hends.congr (statement_of_do hdo)

/-- Statements with stray tokens are read in front of an end token, with one diagnostic for each
stray token. -/
theorem row_strewn {ts : List Token} {ss : List Stmt} {strays : List Stray}
    (hrow : StrewnStatements ts ss strays) (hf : f.Live)
    (hproper : ∀ t ∈ ts, t.isProper = true) (hpasses : f.Passes ts g) (hg : g.atEnd = true) :
    (row f).Ends ss (strays.map Stray.diagnostic) g := by
  have hstop : g.current.isMark "=" = false := by
    by_contra hmark
    have hend := Token.isEnd_of_isMark (t := g.current) (w := "=") (by simpa using hmark)
    rw [Feed.atEnd, hend] at hg
    exact absurd hg (by decide)
  unfold StrewnStatements at hrow
  induction hrow generalizing f with
  | nil =>
      obtain rfl := hpasses.eq_of_nil
      rw [row_of_atEnd hg]
      exact ⟨rfl, rfl, rfl⟩
  | @statement block ts s ss inner strays hs hss ih =>
      obtain ⟨first, us, rfl⟩ := hs.exists_cons
      obtain ⟨hcurrent, h, hmoves, -, hpasses'⟩ := hpasses.moves_of_append hf.free
      obtain rfl := hcurrent
      have hends := ends_strewnStatement hf hs
        (fun t ht => hproper t (List.mem_append_left ts ht)) hmoves
      have hstart : f.atEnd = false := Token.isEnd_of_isProper (hproper f.current (by simp))
      have hrest := ih (hf.of_moves hmoves).advance (fun t ht => hproper t (by simp [ht])) hpasses'
      rw [List.map_append]
      exact row_next hf hstart hends hrest
  | @stray t ts ss strays ht hss ih =>
      obtain ⟨rfl, hpasses'⟩ := hpasses.of_cons hf.free
      have hstatement := statement_of_stray ht.notInt ht.notDo
        (startsAssignment_of_passes hf hpasses ht.notOpening hstop)
      have hstart : f.atEnd = false := Token.isEnd_of_isProper (hproper f.current (by simp))
      have hends : statement.Ends f none [(Stray.outside f.current).diagnostic] f :=
        (ends_reject (.unexpected f.current.toLexeme) f).congr hstatement
      exact row_next hf hstart hends
        (ih hf.advance (fun t ht => hproper t (by simp [ht])) hpasses')

end Parse

/-! ## Whole token lists -/

/-- The text of what is said of a stray token. -/
def Stray.text : Stray → String
  | outside t => "Unexpected token " ++ t.describe
  | inBody t => "Expected assignment in loop body, got " ++ t.describe

/-- The token that strays. -/
def Stray.token : Stray → Token
  | outside t => t
  | inBody t => t

/-- What is said of a stray token has its text and stands at the token. -/
theorem Stray.message_diagnostic (x : Stray) :
    x.diagnostic.message = x.text ∧ x.diagnostic.position = x.token.position := by
  cases x <;> exact ⟨rfl, rfl⟩

/-- **Stray tokens cost no statement.** From statements with stray tokens between them and in the
bodies of their loops, all statements are parsed, each loop with all its assignments; and for each
stray token, in order, there is one diagnostic at its place, and no other. -/
theorem parse_strewn (ts : List Token) (hts : Regular ts) (ss : List Stmt) (strays : List Stray)
    (hrow : Grammar.StrewnStatements (inner ts) ss strays) :
    (parse ts).program.statements = ss ∧
      ((parse ts).errors.map fun d => (d.message, d.position)) =
        strays.map fun x => (x.text, x.token.position) := by
  obtain ⟨e, hclosed, he⟩ := hts.closed_eq
  have hlive := Feed.live_ofTokens ts
  have htokens := Feed.ofTokens_tokens ts
  rw [hclosed] at htokens
  have hpasses : (Feed.ofTokens ts).Passes (inner ts) ⟨e, [], false⟩ :=
    ⟨hlive.free.symm, htokens⟩
  obtain ⟨hitems, -, herrors⟩ := Parse.row_strewn hrow hlive hts.isProper_of_mem_inner hpasses he
  refine ⟨by rw [statements_parse, hitems], ?_⟩
  rw [errors_parse, herrors, List.map_map]
  refine List.map_congr_left fun x _ => ?_
  obtain ⟨htext, hplace⟩ := x.message_diagnostic
  rw [Function.comp_apply, htext, hplace]

/-- A semicolon, a loop with a sign and a reserved word in its body, and a name. -/
def strewnTokens : List Token :=
  [⟨⟨.symbol, ";"⟩, ⟨1, 1⟩⟩, ⟨⟨.reserved, "do"⟩, ⟨2, 1⟩⟩, ⟨⟨.symbol, "\x7b"⟩, ⟨2, 4⟩⟩,
    ⟨⟨.symbol, "+"⟩, ⟨3, 1⟩⟩, ⟨⟨.identifier, "a"⟩, ⟨3, 3⟩⟩, ⟨⟨.symbol, "="⟩, ⟨3, 4⟩⟩,
    ⟨⟨.number, "1"⟩, ⟨3, 5⟩⟩, ⟨⟨.symbol, ";"⟩, ⟨3, 6⟩⟩, ⟨⟨.reserved, "int"⟩, ⟨3, 8⟩⟩,
    ⟨⟨.symbol, "\x7d"⟩, ⟨4, 1⟩⟩, ⟨⟨.reserved, "while"⟩, ⟨4, 3⟩⟩, ⟨⟨.symbol, "("⟩, ⟨4, 8⟩⟩,
    ⟨⟨.identifier, "a"⟩, ⟨4, 9⟩⟩, ⟨⟨.symbol, "=="⟩, ⟨4, 10⟩⟩, ⟨⟨.number, "9"⟩, ⟨4, 12⟩⟩,
    ⟨⟨.symbol, ")"⟩, ⟨4, 13⟩⟩, ⟨⟨.symbol, ";"⟩, ⟨4, 14⟩⟩, ⟨⟨.identifier, "b"⟩, ⟨5, 1⟩⟩]

/-- The loop in these tokens. -/
def strewnLoop : Stmt :=
  .loop [.assignment "a" (.number "1" ⟨3, 5⟩) ⟨3, 3⟩]
    (.binary (.identifier "a" ⟨4, 9⟩) "==" (.number "9" ⟨4, 12⟩) ⟨4, 9⟩) ⟨2, 1⟩

/-- The stray tokens among them. -/
def strewnStrays : List Stray :=
  [.outside ⟨⟨.symbol, ";"⟩, ⟨1, 1⟩⟩, .inBody ⟨⟨.symbol, "+"⟩, ⟨3, 1⟩⟩,
    .inBody ⟨⟨.reserved, "int"⟩, ⟨3, 8⟩⟩, .outside ⟨⟨.identifier, "b"⟩, ⟨5, 1⟩⟩]

/-- A loop is read among stray tokens, with one error for each of them. -/
theorem parse_strewnTokens :
    Regular strewnTokens ∧
      Grammar.StrewnStatements (inner strewnTokens) [strewnLoop] strewnStrays ∧
      (parse strewnTokens).program.statements = [strewnLoop] ∧
      ((parse strewnTokens).errors.map fun d => (d.message, d.position)) =
        strewnStrays.map fun x => (x.text, x.token.position) := by
  have hregular : Regular strewnTokens := ⟨by decide, by decide⟩
  have hitem : Grammar.AssignmentBlock ((strewnTokens.drop 4).take 4)
      (.assignment "a" (.number "1" ⟨3, 5⟩) ⟨3, 3⟩) := .mk rfl (.mk rfl (.operand rfl) rfl)
  have hlast : Grammar.StrewnBody [⟨⟨.reserved, "int"⟩, ⟨3, 8⟩⟩] []
      [.inBody ⟨⟨.reserved, "int"⟩, ⟨3, 8⟩⟩] := .stray ⟨by decide, by decide⟩ .nil
  have hbody : Grammar.StrewnBody ((strewnTokens.drop 3).take 6)
      [.assignment "a" (.number "1" ⟨3, 5⟩) ⟨3, 3⟩]
      [.inBody ⟨⟨.symbol, "+"⟩, ⟨3, 1⟩⟩, .inBody ⟨⟨.reserved, "int"⟩, ⟨3, 8⟩⟩] :=
    .stray ⟨by decide, by decide⟩ (.statement (And.intro hitem rfl) hlast)
  have hloop : Grammar.StrewnStatement ((strewnTokens.drop 1).take 16) strewnLoop
      [.inBody ⟨⟨.symbol, "+"⟩, ⟨3, 1⟩⟩, .inBody ⟨⟨.reserved, "int"⟩, ⟨3, 8⟩⟩] :=
    .loop rfl rfl hbody rfl rfl (.mk rfl (.mk rfl rfl rfl) rfl rfl)
  have hrow : Grammar.StrewnStatements (inner strewnTokens) [strewnLoop] strewnStrays :=
    .stray ⟨by decide, by decide, by decide⟩
      (.statement hloop (.stray ⟨by decide, by decide, by decide⟩ .nil))
  exact ⟨hregular, hrow, parse_strewn strewnTokens hregular [strewnLoop] strewnStrays hrow⟩

end DoWhile
