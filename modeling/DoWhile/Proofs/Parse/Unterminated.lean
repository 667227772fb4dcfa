import DoWhile.Proofs.Parse.Composition
import DoWhile.Proofs.Parse.Strays

/-!
# Missing semicolons

A statement without its semicolon is given up on its last token, and reading goes on with the token
behind it, whatever that is (`ends_unterminated`). So is an assignment in the body of a loop, and
the loop keeps its other assignments, also next to items that are wrong in other ways: stray tokens
and assignments that lack an operand (`BodyRun.patchy`). A missing semicolon costs the statement
that it ends, one diagnostic, and nothing else (`parse_unterminated`).

The token behind a statement must not be taken for a part of it: it is no semicolon, and behind a
single operand it is no sign of arithmetic (`Stmt.EndsBefore`).
-/

set_option autoImplicit false

namespace DoWhile

namespace Stmt

/-- Is the value of the statement a single operand? -/
def hasOperand : Stmt → Bool
  | declaration _ _ value _ => value.isOperand
  | assignment _ value _ => value.isOperand
  | loop _ _ _ => false

/-- How the semicolon behind the statement is asked for. -/
def semicolon : Stmt → Expectation
  | declaration _ _ _ _ => .semicolonAfterDeclaration
  | assignment _ _ _ => .semicolonAfterAssignment
  | loop _ _ _ => .semicolonAfterLoop

/-- What the statement is called. -/
def title : Stmt → String
  | declaration _ _ _ _ => "variable declaration"
  | assignment _ _ _ => "assignment"
  | loop _ _ _ => "do-while loop"

/-- The lexeme is no part of the statement that lacks its semicolon in front of it. -/
structure EndsBefore (s : Stmt) (x : Lexeme) : Prop where
  noSemicolon : x.isMark ";" = false
  noSign : s.hasOperand = true → Parse.isArithmetic x = false

end Stmt

/-- What is said when a semicolon is missing names the statement and what stands in its place. -/
theorem Token.message_wants_semicolon (t : Token) (s : Stmt) (x : Lexeme) :
    (t.wants s.semicolon x).message =
      "Expected ';' after " ++ s.title ++ ", got " ++ x.describe := by
  cases s <;> rfl

/-- A row with a last token has a first one. -/
theorem exists_cons_eq_concat (front : List Token) (last : Token) :
    ∃ first us, front ++ [last] = first :: us ∧ us.getLastD first = last := by
  cases front with
  | nil => exact ⟨last, [], rfl, rfl⟩
  | cons t ts => exact ⟨t, ts ++ [last], rfl, by rw [getLastD_append_cons, List.getLastD_nil]⟩

namespace Grammar

/-! ## Statements in front of their semicolons -/

/-- An assignment in parts, with its semicolon taken off. -/
theorem Assignment.of_concat {first semicolon : Token} {us : List Token} {s : Stmt}
    (h : Assignment (first :: (us ++ [semicolon])) s) :
    ∃ equals ts value, us = equals :: ts ∧ equals.isMark "=" = true ∧ Expression ts value ∧
      s = .assignment first.literal value first.position := by
  generalize hall : us ++ [semicolon] = all at h
  cases h with
  | @mk _ equals last ts value hequals hvalue _ =>
      rw [← List.cons_append] at hall
      exact ⟨equals, ts, value, (List.append_inj' hall rfl).1, hequals, hvalue, rfl⟩

/-- In front of its semicolon, an assignment ends with an operand. -/
theorem Assignment.operand?_of_concat {first semicolon : Token} {us : List Token} {s : Stmt}
    (h : Assignment (first :: (us ++ [semicolon])) s) :
    ∃ e, (us.getLastD first).operand? = some e := by
  obtain ⟨equals, ts, value, rfl, -, hvalue, -⟩ := h.of_concat
  rw [List.getLastD_cons]
  exact hvalue.operand?_getLastD equals

/-- A declaration in parts, with its semicolon taken off. -/
theorem Declaration.of_concat {first semicolon : Token} {us : List Token} {s : Stmt}
    (h : Declaration (first :: (us ++ [semicolon])) s) :
    ∃ name equals ts value, us = name :: equals :: ts ∧ name.kind = .identifier ∧
      equals.isMark "=" = true ∧ Expression ts value ∧
      s = .declaration first.literal name.literal value first.position := by
  generalize hall : us ++ [semicolon] = all at h
  cases h with
  | @mk _ name equals last ts value hname hequals hvalue _ =>
      rw [← List.cons_append, ← List.cons_append] at hall
      exact ⟨name, equals, ts, value, (List.append_inj' hall rfl).1, hname, hequals, hvalue, rfl⟩

/-- A condition in parts, with its semicolon taken off. -/
theorem Condition.of_concat {word semicolon : Token} {us : List Token} {test : Expr}
    (h : Condition (word :: (us ++ [semicolon])) test) :
    ∃ opening closing ts, us = opening :: (ts ++ [closing]) ∧ opening.isMark "(" = true ∧
      Comparison ts test ∧ closing.isMark ")" = true := by
  generalize hall : us ++ [semicolon] = all at h
  cases h with
  | @mk _ opening closing last ts _ hopening htest hclosing _ =>
      have hsplit : opening :: (ts ++ [closing, last]) =
          opening :: (ts ++ [closing]) ++ [last] := by simp
      rw [hsplit] at hall
      exact ⟨opening, closing, ts, (List.append_inj' hall rfl).1, hopening, htest, hclosing⟩

/-- A loop in parts, with its semicolon taken off. -/
theorem Loop.of_concat {first semicolon : Token} {us : List Token} {s : Stmt}
    (h : Loop (first :: (us ++ [semicolon])) s) :
    ∃ opening closing word ts vs body test, us = opening :: (ts ++ closing :: word :: vs) ∧
      opening.isMark "\x7b" = true ∧ Body ts body ∧ closing.literal = "\x7d" ∧
      word.isMark "while" = true ∧ Condition (word :: (vs ++ [semicolon])) test ∧
      s = .loop body test first.position := by
  generalize hall : us ++ [semicolon] = all at h
  cases h with
  | @mk _ opening closing word ts ws body test hopening hbody hclosing hword htest =>
      rcases List.eq_nil_or_concat ws with rfl | ⟨vs, last, rfl⟩
      · cases htest
      · rw [List.concat_eq_append] at hall htest
        have hsplit : opening :: (ts ++ closing :: word :: (vs ++ [last])) =
            opening :: (ts ++ closing :: word :: vs) ++ [last] := by simp
        rw [hsplit] at hall
        obtain ⟨hus, hlast⟩ := List.append_inj' hall rfl
        rw [(List.cons.inj hlast).1]
        exact ⟨opening, closing, word, ts, vs, body, test, hus, hopening, hbody, hclosing, hword,
          htest, rfl⟩

/-! ## Loops with missing semicolons in their bodies -/

/-- An expression in front of an operand that is missing. -/
inductive HalfExpression : List Token → Prop
  | nil : HalfExpression []
  | sign {a o : Token} {left : Expr} (ha : a.operand? = some left)
      (ho : Parse.isArithmetic o.toLexeme = true) : HalfExpression [a, o]

/-- The items of a loop body in front of its closing brace: assignments, of which some lack their
semicolons and some an operand, with stray tokens between them. Where an operand is missing in front
of the closing brace, the body ends. The assignments that are whole are listed, and what is said of
the others and of the stray tokens. -/
inductive PatchyBody (closing : Token) : List Token → List Stmt → List Diagnostic → Prop
  | nil : PatchyBody closing [] [] []
  | whole {block ts : List Token} {s : Stmt} {ss : List Stmt} {ds : List Diagnostic}
      (hs : AssignmentBlock block s) (hss : PatchyBody closing ts ss ds) :
      PatchyBody closing (block ++ ts) (s :: ss) ds
  | unterminated {front ts : List Token} {last semicolon : Token} {s : Stmt} {ss : List Stmt}
      {ds : List Diagnostic} (hs : AssignmentBlock (front ++ [last, semicolon]) s)
      (hbehind : s.EndsBefore (ts.headD closing).toLexeme) (hss : PatchyBody closing ts ss ds) :
      PatchyBody closing (front ++ [last] ++ ts) ss
        (last.wants s.semicolon (ts.headD closing).toLexeme :: ds)
  | lacking {first equals found : Token} {half ts : List Token} {ss : List Stmt}
      {ds : List Diagnostic} (hfirst : first.kind = .identifier)
      (hequals : equals.isMark "=" = true) (hhalf : HalfExpression half)
      (hfound : found.operand? = none)
      (hopen : found.literal ≠ "\x7d") (hss : PatchyBody closing ts ss ds) :
      PatchyBody closing (first :: equals :: half ++ found :: ts) ss
        (found.wants .operand found.toLexeme :: ds)
  | broken {first equals : Token} {half : List Token} (hfirst : first.kind = .identifier)
      (hequals : equals.isMark "=" = true) (hhalf : HalfExpression half) :
      PatchyBody closing (first :: equals :: half) [] [closing.wants .operand closing.toLexeme]
  | stray {t : Token} {ts : List Token} {ss : List Stmt} {ds : List Diagnostic}
      (ht : LooseInBody t ts) (hss : PatchyBody closing ts ss ds) :
      PatchyBody closing (t :: ts) ss ((Stray.inBody t).diagnostic :: ds)

/-- A loop in whose body semicolons and operands are missing. -/
inductive PatchyLoop : List Token → Stmt → List Diagnostic → Prop
  | mk {first opening closing word : Token} {ts us : List Token} {body : List Stmt} {test : Expr}
      {ds : List Diagnostic} (hfirst : first.isMark "do" = true)
      (hopening : opening.isMark "\x7b" = true) (hbody : PatchyBody closing ts body ds)
      (hclosing : closing.isMark "\x7d" = true) (hword : word.isMark "while" = true)
      (htest : Condition (word :: us) test) :
      PatchyLoop (first :: opening :: (ts ++ closing :: word :: us))
        (.loop body test first.position) ds

end Grammar

namespace Parse

open Grammar

variable {f g : Feed}

/-! ## Statements without a semicolon -/

/-- Behind a value that lacks its semicolon, the value is the last thing that was read. -/
theorem ends_value (wanted : Expectation) (k : Expr → Stmt) {ts : List Token} {value : Expr}
    (hf : f.Live) (hvalue : Expression ts value) (hmoves : f.Moves ts g)
    (hopen : g.peek.isMark ";" = false)
    (hsign : value.isOperand = true → isArithmetic g.peek.toLexeme = false) :
    (advance >>= fun _ => expression >>= fun value => expect ";" wanted >>= fun _ =>
      pure (k value)).Ends f none [g.current.wants wanted g.peek.toLexeme] g := by
  obtain ⟨t, us, rfl⟩ : ∃ t us, ts = t :: us := by cases hvalue <;> exact ⟨_, _, rfl⟩
  obtain ⟨-, hcurrent, hlive, hmoves'⟩ := hf.of_cons hmoves
  have hlook : us = [] → isArithmetic g.peek.toLexeme = false := by
    rintro rfl
    cases hvalue with
    | operand he => exact hsign (isOperand_of_operand? he).1
  have hexpression : expression.Yields f.advance value g := by
    rw [yields_expression_iff hlive, hcurrent]
    exact ⟨us, hmoves', hvalue, hlook⟩
  exact .advance_bind (hexpression.bind_ends (ends_expect_of_not hopen).bind_none)

/-- An assignment without its semicolon ends in asking for it. -/
theorem ends_assignment_unterminated {semicolon : Token} {us : List Token} {s : Stmt}
    (hf : f.Live) (hs : Assignment (f.current :: (us ++ [semicolon])) s) (hmoves : f.Moves us g)
    (hbehind : s.EndsBefore g.peek.toLexeme) :
    assignment.Ends f none [g.current.wants s.semicolon g.peek.toLexeme] g := by
  obtain ⟨equals, ts, value, rfl, hequals, hvalue, rfl⟩ := hs.of_concat
  obtain ⟨hpeek, -, hlive, hmoves'⟩ := hf.of_cons hmoves
  have hends := ends_value .semicolonAfterAssignment
    (fun value => .assignment f.current.literal value f.current.position) hlive hvalue hmoves'
    hbehind.noSemicolon hbehind.noSign
  exact .current_bind (.expect_bind (by rw [hpeek, hequals]) hends)

/-- Tokens of an assignment start one. -/
theorem startsAssignment_of_concat {semicolon : Token} {us : List Token} {s : Stmt} (hf : f.Live)
    (hkind : f.current.kind = .identifier) (hs : Assignment (f.current :: (us ++ [semicolon])) s)
    (hmoves : f.Moves us g) : startsAssignment f = true := by
  obtain ⟨equals, ts, value, rfl, hequals, -, -⟩ := hs.of_concat
  obtain ⟨hpeek, -, -, -⟩ := hf.of_cons hmoves
  exact startsAssignment_iff.mpr ⟨hkind, by rw [hpeek, hequals]⟩

/-- A declaration without its semicolon ends in asking for it. -/
theorem ends_declaration_unterminated {semicolon : Token} {us : List Token} {s : Stmt}
    (hf : f.Live) (hs : Declaration (f.current :: (us ++ [semicolon])) s) (hmoves : f.Moves us g)
    (hbehind : s.EndsBefore g.peek.toLexeme) :
    declaration.Ends f none [g.current.wants s.semicolon g.peek.toLexeme] g := by
  obtain ⟨name, equals, ts, value, rfl, hname, hequals, hvalue, rfl⟩ := hs.of_concat
  obtain ⟨hpeek, hnext, hlive, hmoves'⟩ := hf.of_cons hmoves
  obtain ⟨hpeek', -, hlive', hmoves''⟩ := hlive.of_cons hmoves'
  have hkind : (expectKind .identifier .variableName).Yields f () f.advance :=
    yields_expectKind.mpr ⟨by rw [hpeek, hname], rfl⟩
  have hends := ends_value .semicolonAfterDeclaration
    (fun value => .declaration f.current.literal name.literal value f.current.position) hlive'
    hvalue hmoves'' hbehind.noSemicolon hbehind.noSign
  refine .current_bind (hkind.bind_ends (.current_bind ?_))
  rw [hnext]
  exact .expect_bind (by rw [hpeek', hequals]) hends

/-- A condition without its semicolon ends in asking for it. -/
theorem ends_condition_unterminated {semicolon : Token} {us : List Token} {test : Expr}
    (hf : f.Live) (htest : Condition (f.current :: (us ++ [semicolon])) test)
    (hmoves : f.Moves us g) (hopen : g.peek.isMark ";" = false) :
    condition.Ends f none [g.current.wants .semicolonAfterLoop g.peek.toLexeme] g := by
  obtain ⟨opening, closing, ts, rfl, hopening, hcomparison, hclosing⟩ := htest.of_concat
  obtain ⟨t, us, rfl⟩ : ∃ t us, ts = t :: us := by cases hcomparison; exact ⟨_, _, rfl⟩
  obtain ⟨hpeek, -, hlive, hmoves'⟩ := hf.of_cons hmoves
  obtain ⟨-, hcurrent, hlive', hmoves''⟩ := hlive.of_cons hmoves'
  obtain ⟨h, hreads, hlast⟩ := hmoves''.of_append
  obtain ⟨hpeek', -, -, hstays⟩ := (hlive'.of_moves hreads).of_cons hlast
  obtain rfl := hstays.eq_of_nil
  have hyields : (comparison.orMove Feed.pastCondition).Yields f.advance.advance test h := by
    rw [yields_orMove, yields_comparison_iff hlive', hcurrent]
    exact ⟨us, hreads, hcomparison⟩
  refine .expect_bind (by rw [hpeek, hopening]) (.advance_bind (hyields.bind_ends ?_))
  exact .expect_bind (by rw [hpeek', hclosing]) (ends_expect_of_not hopen).bind_none

/-- A loop without its semicolon ends in asking for it. -/
theorem ends_loop_unterminated {semicolon : Token} {us : List Token} {s : Stmt} (hf : f.Live)
    (hs : Loop (f.current :: (us ++ [semicolon])) s) (hmoves : f.Moves us g)
    (hbehind : s.EndsBefore g.peek.toLexeme) :
    loop.Ends f none [g.current.wants s.semicolon g.peek.toLexeme] g := by
  obtain ⟨opening, closing, word, ts, vs, body, test, rfl, hopening, hbody, hclosing, hword, htest,
    rfl⟩ := hs.of_concat
  have hclosed : ∀ h : Feed, f.advance.advance.Live → f.advance.advance.Passes ts h →
      h.current = closing → closedBody.Ends f.advance.advance (some body) [] h :=
    fun h hlive hpasses hcurrent =>
      (yields_closedBody_of_body hbody hlive hpasses (by rw [hcurrent, hclosing])).ends
  have hcondition : ∀ h : Feed, h.Live → h.current = word → h.Moves vs g →
      condition.Ends h none [g.current.wants .semicolonAfterLoop g.peek.toLexeme] g := by
    rintro h hlive rfl hmoves'
    exact ends_condition_unterminated hlive htest hmoves' hbehind.noSemicolon
  exact ends_loop hf hopening hword hmoves hclosed hcondition

/-- A statement without its semicolon is given up on its last token. -/
theorem ends_unterminated {semicolon : Token} {us : List Token} {s : Stmt} (hf : f.Live)
    (hs : Statement (f.current :: (us ++ [semicolon])) s) (hmoves : f.Moves us g)
    (hbehind : s.EndsBefore g.peek.toLexeme) :
    statement.Ends f none [g.current.wants s.semicolon g.peek.toLexeme] g := by
  cases hs with
  | declaration hint hs =>
      exact (ends_declaration_unterminated hf hs hmoves hbehind).congr (statement_of_int hint)
  | loop hdo hs => exact (ends_loop_unterminated hf hs hmoves hbehind).congr (statement_of_do hdo)
  | assignment hkind hint hdo hs =>
      have hstarts := startsAssignment_of_concat hf hkind hs hmoves
      exact (ends_assignment_unterminated hf hs hmoves hbehind).congr
        (statement_of_assignment hint hdo hstarts)

/-! ## Loop bodies -/

/-- An item of a loop body without its semicolon ends in asking for it. -/
theorem ends_bodyItem_unterminated {semicolon : Token} {us : List Token} {s : Stmt} (hf : f.Live)
    (hkind : f.current.kind = .identifier) (hs : Assignment (f.current :: (us ++ [semicolon])) s)
    (hmoves : f.Moves us g) (hbehind : s.EndsBefore g.peek.toLexeme) :
    bodyItem.Ends f none [g.current.wants s.semicolon g.peek.toLexeme] g := by
  have hstarts := startsAssignment_of_concat hf hkind hs hmoves
  exact (ends_assignment_unterminated hf hs hmoves hbehind).congr (by rw [bodyItem, if_pos hstarts])

/-- A round that gives up an assignment without its semicolon, in front of the rest of a body. -/
theorem BodyRun.next_unterminated {front ts : List Token} {last semicolon : Token} {s : Stmt}
    {ss : List Stmt} {ds : List Diagnostic} {st : Stretch}
    (hs : AssignmentBlock (front ++ [last, semicolon]) s)
    (hbehind : s.EndsBefore (ts.headD g.current).toLexeme) (h : BodyRun f st) (hf : f.Live)
    (hproper : ∀ t ∈ front ++ [last], t.isProper = true)
    (hpasses : f.Passes (front ++ [last] ++ ts) g)
    (hrest : ∀ (f' : Feed) (rest : Stretch), BodyRun f' rest → f'.Live → f'.Passes ts g →
      rest.Ends ss ds g) :
    st.Ends ss (last.wants s.semicolon (ts.headD g.current).toLexeme :: ds) g := by
  obtain ⟨first, us, hblock, hlast⟩ := exists_cons_eq_concat front last
  rw [List.append_cons, hblock, List.cons_append] at hs
  rw [hblock] at hpasses hproper
  cases hs with
  | mk hkind hs =>
      obtain ⟨rfl, h', hmoves, -, hpasses'⟩ := hpasses.moves_of_append hf.free
      have hlive := hf.of_moves hmoves
      have hcurrent : h'.current = last := by rw [hmoves.current, hlast]
      have hpeek : h'.peek = ts.headD g.current := by
        rw [← Feed.current_advance hlive.free, hpasses'.current]
      rw [← hpeek] at hbehind ⊢
      rw [← hcurrent]
      have hends := endsBody_of_identifier (hproper f.current List.mem_cons_self) hkind
      -- the last token is an operand, so the body does not break off there
      have hgoes : h'.current.literal ≠ "\x7d" := by
        intro hclosing
        have hproper' : last.isProper = true := hproper last (by rw [← hblock]; simp)
        rw [hcurrent] at hclosing
        have hnone := Token.operand?_of_literal hproper' rfl hclosing
        obtain ⟨e, he⟩ := hs.operand?_of_concat
        rw [hlast, hnone] at he
        exact absurd he (by simp)
      exact h.next hf hends (ends_bodyItem_unterminated hf hkind hs hmoves hbehind)
        (fun _ => hgoes) fun rest hrun => hrest _ rest hrun hlive.advance hpasses'

/-- An expression is given up on the token that stands where an operand is missing. -/
theorem ends_expression_lacking {half : List Token} (hf : f.Live) (hhalf : HalfExpression half)
    (hpasses : f.Passes half g) (hnone : g.current.operand? = none) :
    expression.Ends f none [g.current.wants .operand g.current.toLexeme] g := by
  have hends := ends_operand_of_none hnone
  cases hhalf with
  | nil =>
      obtain rfl := hpasses.eq_of_nil
      exact hends.bind_none
  | @sign a o left ha ho =>
      obtain ⟨rfl, hpasses'⟩ := hpasses.of_cons hf.free
      obtain ⟨hsign, hpasses''⟩ := hpasses'.of_cons hf.advance.free
      obtain rfl := hpasses''.eq_of_nil
      rw [Feed.current_advance hf.free] at hsign
      have hleft : operand.Yields f left f := yields_operand.mpr ⟨ha, rfl⟩
      refine hleft.bind_ends (.peek_bind ?_)
      rw [hsign, if_pos ho]
      exact .advance_bind (.current_bind (.advance_bind hends.bind_none))

/-- An assignment in a body is given up on the token that stands where an operand is missing. -/
theorem ends_bodyItem_lacking {first equals : Token} {half : List Token} (hf : f.Live)
    (hfirst : first.kind = .identifier) (hequals : equals.isMark "=" = true)
    (hhalf : HalfExpression half) (hpasses : f.Passes (first :: equals :: half) g)
    (hnone : g.current.operand? = none) :
    bodyItem.Ends f none [g.current.wants .operand g.current.toLexeme] g := by
  obtain ⟨rfl, hpasses'⟩ := hpasses.of_cons hf.free
  obtain ⟨hnext, hpasses''⟩ := hpasses'.of_cons hf.advance.free
  rw [Feed.current_advance hf.free] at hnext
  have hsign : f.peek.isMark "=" = true := by rw [hnext, hequals]
  have hstarts : startsAssignment f = true := startsAssignment_iff.mpr ⟨hfirst, hsign⟩
  have hexpression := ends_expression_lacking hf.advance.advance hhalf hpasses'' hnone
  have hends : assignment.Ends f none [g.current.wants .operand g.current.toLexeme] g :=
    .current_bind (.expect_bind hsign (.advance_bind hexpression.bind_none))
  exact hends.congr (by rw [bodyItem, if_pos hstarts])

/-- A round that gives up an assignment without an operand, in front of the rest of a body. -/
theorem BodyRun.next_lacking {first equals found : Token} {half ts : List Token} {ss : List Stmt}
    {ds : List Diagnostic} {st : Stretch} (hfirst : first.kind = .identifier)
    (hequals : equals.isMark "=" = true) (hhalf : HalfExpression half)
    (hfound : found.operand? = none) (hopen : found.literal ≠ "\x7d") (h : BodyRun f st)
    (hf : f.Live) (hproper : first.isProper = true)
    (hpasses : f.Passes (first :: equals :: half ++ found :: ts) g)
    (hrest : ∀ (f' : Feed) (rest : Stretch), BodyRun f' rest → f'.Live → f'.Passes ts g →
      rest.Ends ss ds g) :
    st.Ends ss (found.wants .operand found.toLexeme :: ds) g := by
  obtain ⟨rfl, k, hmoves, hne, hpasses'⟩ := hpasses.moves_of_append hf.free
  have hlive := (hf.of_moves hmoves).advance
  have hfront := hmoves.passes (hf.of_moves hmoves).free hne
  obtain ⟨rfl, hpasses''⟩ := hpasses'.of_cons hlive.free
  have hends := endsBody_of_identifier hproper hfirst
  exact h.next hf hends (ends_bodyItem_lacking hf hfirst hequals hhalf hfront hfound)
    (fun _ => hopen) fun rest hrun => hrest _ rest hrun hlive.advance hpasses''

/-- A loop body with such gaps is read with the assignments that are whole. -/
theorem BodyRun.patchy {ts : List Token} {ss : List Stmt} {ds : List Diagnostic}
    {st : Stretch} (hbody : PatchyBody g.current ts ss ds) (h : BodyRun f st) (hf : f.Live)
    (hproper : ∀ t ∈ ts, t.isProper = true) (hpasses : f.Passes ts g)
    (hclosing : g.current.isMark "\x7d" = true) : st.Ends ss ds g := by
  have hliteral := Lexeme.literal_of_isMark hclosing
  induction hbody generalizing f st with
  | nil =>
      obtain rfl := hpasses.eq_of_nil
      rw [h.eq_of_endsBody (by simp [endsBody, hliteral])]
      exact ⟨rfl, rfl, rfl⟩
  | @whole block ts s ss ds hs hss ih =>
      exact h.next_assignment hs hf (fun t ht => hproper t (List.mem_append_left ts ht)) hpasses
        fun f' rest hrun hlive hpasses' =>
          ih hrun hlive (fun t ht => hproper t (List.mem_append_right block ht)) hpasses'
  | @unterminated front ts last semicolon s ss ds hs hbehind hss ih =>
      exact h.next_unterminated hs hbehind hf
        (fun t ht => hproper t (List.mem_append_left ts ht)) hpasses
        fun f' rest hrun hlive hpasses' =>
          ih hrun hlive (fun t ht => hproper t (List.mem_append_right _ ht)) hpasses'
  | @lacking first equals found half ts ss ds hfirst hequals hhalf hfound hopen hss ih =>
      exact h.next_lacking hfirst hequals hhalf hfound hopen hf (hproper first List.mem_cons_self)
        hpasses fun f' rest hrun hlive hpasses' =>
          ih hrun hlive (fun t ht => hproper t (by simp [ht])) hpasses'
  | @broken first equals half hfirst hequals hhalf =>
      have hnone := Token.operand?_of_isMark hclosing
      have hitem := ends_bodyItem_lacking hf hfirst hequals hhalf hpasses hnone
      obtain ⟨rfl, -⟩ := hpasses.of_cons hf.free
      have hends := endsBody_of_identifier (hproper f.current List.mem_cons_self) hfirst
      exact h.ends_of_breaksOff hends hitem hliteral
  | @stray t ts ss ds ht hss ih =>
      exact h.next_stray ht hf (hproper t List.mem_cons_self) hpasses hliteral
        fun f' rest hrun hlive hpasses' =>
          ih hrun hlive (fun u hu => hproper u (List.mem_cons_of_mem t hu)) hpasses'

/-- A loop with such gaps in its body is read with the assignments that are whole. -/
theorem ends_statement_patchy {us : List Token} {s : Stmt} {ds : List Diagnostic} (hf : f.Live)
    (hloop : PatchyLoop (f.current :: us) s ds) (hproper : ∀ t ∈ us, t.isProper = true)
    (hmoves : f.Moves us g) : statement.Ends f (some s) ds g := by
  generalize hcurrent : f.current = first at hloop
  cases hloop with
  | mk hfirst hopening hbody hclosing hword htest =>
      subst hcurrent
      have hliteral := Lexeme.literal_of_isMark hclosing
      have hloop := ends_loop_of_condition hf hopening hliteral hword htest hmoves
        (by
          rintro h hlive hpasses rfl
          exact (bodyRun_body f.advance.advance).patchy hbody hlive
            (fun t ht => hproper t (by simp [ht])) hpasses hclosing)
      exact hloop.congr (statement_of_do (Lexeme.literal_of_isMark hfirst))

end Parse

/-! ## Whole token lists -/

/-- **A missing semicolon costs the statement that it ends.** A statement without its semicolon, in
front of a token that is no part of it, is not parsed; there is one diagnostic, at the last token of
the statement, and the rest is read as if nothing had come before. In the body of a loop it is the
same: an assignment without its semicolon costs one diagnostic at its last token, and the loop is
parsed with all its other assignments, whatever stray tokens and assignments without an operand
stand between them. -/
theorem parse_unterminated (rest : List Token) :
    (∀ (front : List Token) (last semicolon : Token) (s : Stmt),
      (∀ t ∈ front ++ [last], t.isEnd = false) →
      Grammar.Statement (front ++ [last, semicolon]) s → s.EndsBefore (frontLexeme rest) →
      ∃ d : Diagnostic,
        d.message = "Expected ';' after " ++ s.title ++ ", got " ++ (frontLexeme rest).describe ∧
        d.position = last.position ∧ ReadApart (front ++ [last]) rest [] [d]) ∧
      ∀ (loop : List Token) (s : Stmt) (ds : List Diagnostic),
        (∀ t ∈ loop, t.isProper = true) → Grammar.PatchyLoop loop s ds →
        ReadApart loop rest [s] ds := by
  constructor
  · intro front last semicolon s hts hs hbehind
    refine ⟨last.wants s.semicolon (frontLexeme rest), Token.message_wants_semicolon _ _ _, rfl, ?_⟩
    obtain ⟨first, us, hblock, hlast⟩ := exists_cons_eq_concat front last
    rw [List.append_cons, hblock, List.cons_append] at hs
    rw [hblock] at hts ⊢
    have hend : last.isEnd = false := hts last (by rw [← hblock]; simp)
    refine readApart_of_ends (v := none) rest (hts first List.mem_cons_self)
      (by rw [hlast, hend]) ?_
    rintro f g hf rfl hmoves hfront
    rw [← hfront] at hbehind ⊢
    rw [← hlast, ← hmoves.current]
    exact Parse.ends_unterminated hf hs hmoves hbehind
  · intro loop s ds hproper hloop
    obtain ⟨first, us, rfl⟩ : ∃ first us, loop = first :: us := by
      cases hloop
      exact ⟨_, _, rfl⟩
    have hends : ∀ t ∈ first :: us, t.isEnd = false :=
      fun t ht => Token.isEnd_of_isProper (hproper t ht)
    refine readApart_of_ends (v := some s) rest (hends first List.mem_cons_self)
      (hends _ List.getLastD_mem_cons) ?_
    rintro f g hf rfl hmoves -
    exact Parse.ends_statement_patchy hf hloop
      (fun t ht => hproper t (List.mem_cons_of_mem _ ht)) hmoves

/-- A loop with three assignments, the first and the last of which lack their semicolons, and a sign
behind the second one. -/
def patchyTokens : List Token :=
  [⟨⟨.reserved, "do"⟩, ⟨1, 1⟩⟩, ⟨⟨.symbol, "\x7b"⟩, ⟨1, 4⟩⟩, ⟨⟨.identifier, "a"⟩, ⟨2, 1⟩⟩,
    ⟨⟨.symbol, "="⟩, ⟨2, 3⟩⟩, ⟨⟨.number, "1"⟩, ⟨2, 5⟩⟩, ⟨⟨.identifier, "b"⟩, ⟨3, 1⟩⟩,
    ⟨⟨.symbol, "="⟩, ⟨3, 3⟩⟩, ⟨⟨.number, "2"⟩, ⟨3, 5⟩⟩, ⟨⟨.symbol, ";"⟩, ⟨3, 6⟩⟩,
    ⟨⟨.symbol, "+"⟩, ⟨3, 8⟩⟩, ⟨⟨.identifier, "c"⟩, ⟨4, 1⟩⟩, ⟨⟨.symbol, "="⟩, ⟨4, 3⟩⟩,
    ⟨⟨.number, "3"⟩, ⟨4, 5⟩⟩, ⟨⟨.symbol, "\x7d"⟩, ⟨5, 1⟩⟩, ⟨⟨.reserved, "while"⟩, ⟨5, 3⟩⟩,
    ⟨⟨.symbol, "("⟩, ⟨5, 9⟩⟩, ⟨⟨.identifier, "a"⟩, ⟨5, 10⟩⟩, ⟨⟨.symbol, "=="⟩, ⟨5, 12⟩⟩,
    ⟨⟨.number, "9"⟩, ⟨5, 15⟩⟩, ⟨⟨.symbol, ")"⟩, ⟨5, 16⟩⟩, ⟨⟨.symbol, ";"⟩, ⟨5, 17⟩⟩]

/-- The loop in these tokens. -/
def patchyLoop : Stmt :=
  .loop [.assignment "b" (.number "2" ⟨3, 5⟩) ⟨3, 1⟩]
    (.binary (.identifier "a" ⟨5, 10⟩) "==" (.number "9" ⟨5, 15⟩) ⟨5, 10⟩) ⟨1, 1⟩

/-- What is said of them. -/
def patchyDiagnostics : List Diagnostic :=
  [⟨.grammar, .expected .semicolonAfterAssignment ⟨.identifier, "b"⟩, ⟨2, 5⟩⟩,
    ⟨.grammar, .expected .bodyAssignment ⟨.symbol, "+"⟩, ⟨3, 8⟩⟩,
    ⟨.grammar, .expected .semicolonAfterAssignment ⟨.symbol, "\x7d"⟩, ⟨4, 5⟩⟩]

/-- A declaration that lacks its semicolon, and a loop in whose body two are missing, are read with
the errors that are listed. -/
theorem parse_unterminated_patchyTokens :
    (∃ d : Diagnostic, d.message = "Expected ';' after variable declaration, got 'do'" ∧
      d.position = ⟨1, 7⟩ ∧ ReadApart (declarationTokens.take 4) openLoopTokens [] [d]) ∧
      ReadApart patchyTokens openLoopTokens [patchyLoop] patchyDiagnostics := by
  obtain ⟨hstatement, hloop⟩ := parse_unterminated openLoopTokens
  constructor
  · exact hstatement (declarationTokens.take 3) ⟨⟨.number, "1"⟩, ⟨1, 7⟩⟩ ⟨⟨.symbol, ";"⟩, ⟨1, 8⟩⟩
      (.declaration "int" "a" (.number "1" ⟨1, 7⟩) ⟨1, 1⟩) (by decide)
      (.declaration rfl (.mk rfl rfl (.operand rfl) rfl)) ⟨rfl, fun _ => rfl⟩
  · have hlast : Grammar.PatchyBody ⟨⟨.symbol, "\x7d"⟩, ⟨5, 1⟩⟩ ((patchyTokens.drop 10).take 3) []
        (patchyDiagnostics.drop 2) :=
      @Grammar.PatchyBody.unterminated _ ((patchyTokens.drop 10).take 2) [] ⟨⟨.number, "3"⟩, ⟨4, 5⟩⟩
        ⟨⟨.symbol, ";"⟩, ⟨4, 6⟩⟩ (.assignment "c" (.number "3" ⟨4, 5⟩) ⟨4, 1⟩) [] []
        (.mk rfl (.mk rfl (.operand rfl) rfl)) ⟨rfl, fun _ => rfl⟩ .nil
    have hrest : Grammar.PatchyBody ⟨⟨.symbol, "\x7d"⟩, ⟨5, 1⟩⟩ ((patchyTokens.drop 5).take 8)
        [.assignment "b" (.number "2" ⟨3, 5⟩) ⟨3, 1⟩] (patchyDiagnostics.drop 1) :=
      @Grammar.PatchyBody.whole _ ((patchyTokens.drop 5).take 4) _ _ _ _
        (.mk rfl (.mk rfl (.operand rfl) rfl)) (.stray ⟨by decide, by decide⟩ hlast)
    have hbody : Grammar.PatchyBody ⟨⟨.symbol, "\x7d"⟩, ⟨5, 1⟩⟩ ((patchyTokens.drop 2).take 11)
        [.assignment "b" (.number "2" ⟨3, 5⟩) ⟨3, 1⟩] patchyDiagnostics :=
      @Grammar.PatchyBody.unterminated _ ((patchyTokens.drop 2).take 2) _ ⟨⟨.number, "1"⟩, ⟨2, 5⟩⟩
        ⟨⟨.symbol, ";"⟩, ⟨2, 6⟩⟩ (.assignment "a" (.number "1" ⟨2, 5⟩) ⟨2, 1⟩) _ _
        (.mk rfl (.mk rfl (.operand rfl) rfl)) ⟨rfl, fun _ => rfl⟩ hrest
    exact hloop patchyTokens patchyLoop patchyDiagnostics (by decide)
      (.mk rfl rfl hbody rfl rfl (.mk rfl (.mk rfl rfl rfl) rfl rfl))

end DoWhile
