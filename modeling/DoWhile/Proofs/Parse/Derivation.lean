import DoWhile.Proofs.Parse.Moves
import DoWhile.Proofs.Parse.Yield
import Mathlib.Tactic.ByContra

/-!
# Derivations

The grammar as relations between tokens and what they spell, one relation for each construct. Each
asks of its tokens exactly what reading asks of them: some by text only, some by kind and text, and
identifiers and numbers by kind only.
-/

set_option autoImplicit false

namespace DoWhile

/-- The operand that a token is, if it is one. -/
def Token.operand? (t : Token) : Option Expr :=
  match t.kind with
  | .identifier => some (.identifier t.literal t.position)
  | .number => some (.number t.literal t.position)
  | _ => none

namespace Grammar

/-- An operand, or two of them joined by a sign of arithmetic. -/
inductive Expression : List Token → Expr → Prop
  | operand {t : Token} {e : Expr} (he : t.operand? = some e) : Expression [t] e
  | binary {a o b : Token} {left right : Expr} (ha : a.operand? = some left)
      (ho : Parse.isArithmetic o.toLexeme = true) (hb : b.operand? = some right) :
      Expression [a, o, b] (.binary left o.literal right left.position)

/-- Two operands joined by the sign of equality. -/
inductive Comparison : List Token → Expr → Prop
  | mk {a o b : Token} {left right : Expr} (ha : a.operand? = some left)
      (ho : o.isMark "==" = true) (hb : b.operand? = some right) :
      Comparison [a, o, b] (.binary left "==" right left.position)

/-- A declaration behind its first token. -/
inductive Declaration : List Token → Stmt → Prop
  | mk {first name equals semicolon : Token} {ts : List Token} {value : Expr}
      (hname : name.kind = .identifier) (hequals : equals.isMark "=" = true)
      (hvalue : Expression ts value) (hsemicolon : semicolon.isMark ";" = true) :
      Declaration (first :: name :: equals :: (ts ++ [semicolon]))
        (.declaration first.literal name.literal value first.position)

/-- An assignment behind its first token. -/
inductive Assignment : List Token → Stmt → Prop
  | mk {first equals semicolon : Token} {ts : List Token} {value : Expr}
      (hequals : equals.isMark "=" = true) (hvalue : Expression ts value)
      (hsemicolon : semicolon.isMark ";" = true) :
      Assignment (first :: equals :: (ts ++ [semicolon]))
        (.assignment first.literal value first.position)

/-- A condition behind the word that stands before it. -/
inductive Condition : List Token → Expr → Prop
  | mk {word opening closing semicolon : Token} {ts : List Token} {test : Expr}
      (hopening : opening.isMark "(" = true) (htest : Comparison ts test)
      (hclosing : closing.isMark ")" = true) (hsemicolon : semicolon.isMark ";" = true) :
      Condition (word :: opening :: (ts ++ [closing, semicolon])) test

/-- Assignments in a row, none of which begins like the end of a loop body. -/
inductive Body : List Token → List Stmt → Prop
  | nil : Body [] []
  | cons {first : Token} {us ts : List Token} {s : Stmt} {ss : List Stmt}
      (hfirst : first.kind = .identifier) (hopen : first.literal ≠ "\x7d")
      (hs : Assignment (first :: us) s) (hss : Body ts ss) :
      Body (first :: (us ++ ts)) (s :: ss)

/-- A loop behind its first token. -/
inductive Loop : List Token → Stmt → Prop
  | mk {first opening closing word : Token} {ts us : List Token} {body : List Stmt} {test : Expr}
      (hopening : opening.isMark "\x7b" = true) (hbody : Body ts body)
      (hclosing : closing.literal = "\x7d") (hword : word.isMark "while" = true)
      (htest : Condition (word :: us) test) :
      Loop (first :: opening :: (ts ++ closing :: word :: us)) (.loop body test first.position)

/-- A statement, told by its first token. -/
inductive Statement : List Token → Stmt → Prop
  | declaration {first : Token} {us : List Token} {s : Stmt} (hfirst : first.literal = "int")
      (hs : Declaration (first :: us) s) : Statement (first :: us) s
  | loop {first : Token} {us : List Token} {s : Stmt} (hfirst : first.literal = "do")
      (hs : Loop (first :: us) s) : Statement (first :: us) s
  | assignment {first : Token} {us : List Token} {s : Stmt} (hkind : first.kind = .identifier)
      (hint : first.literal ≠ "int") (hdo : first.literal ≠ "do")
      (hs : Assignment (first :: us) s) : Statement (first :: us) s

/-- Statements in a row, none of which begins with an end token. -/
inductive Statements : List Token → List Stmt → Prop
  | nil : Statements [] []
  | cons {first : Token} {us ts : List Token} {s : Stmt} {ss : List Stmt}
      (hfirst : first.isEnd = false) (hs : Statement (first :: us) s) (hss : Statements ts ss) :
      Statements (first :: (us ++ ts)) (s :: ss)

end Grammar

/-! ## Marks and operands -/

/-- A mark has the text that it is asked for. -/
theorem Lexeme.literal_of_isMark {l : Lexeme} {w : String} (h : l.isMark w = true) :
    l.literal = w := by
  simp only [isMark, Bool.and_eq_true, beq_iff_eq] at h
  exact h.2

/-- A token stands for one text at most. -/
theorem Lexeme.not_isMark_of_ne {l : Lexeme} {v w : String} (h : l.isMark v = true) (hne : v ≠ w) :
    l.isMark w = false := by
  simp [isMark, literal_of_isMark h, hne]

/-- An operand is no mark. -/
theorem Token.not_isMark_of_operand? {t : Token} {e : Expr} (h : t.operand? = some e) (w : String) :
    t.isMark w = false := by
  obtain ⟨⟨kind, literal⟩, position⟩ := t
  cases kind <;> simp [Token.operand?, Lexeme.isMark] at h ⊢

/-- A mark is no operand. -/
theorem Token.operand?_of_isMark {t : Token} {w : String} (h : t.isMark w = true) :
    t.operand? = none := by
  cases he : t.operand? with
  | none => rfl
  | some e =>
      rw [Token.not_isMark_of_operand? he w] at h
      exact absurd h (by decide)

/-! ## Tokens that are no end of the input -/

/-- A mark is not the end of the input. -/
theorem Token.isEnd_of_isMark {t : Token} {w : String} (h : t.isMark w = true) :
    t.isEnd = false := by
  by_contra hend
  have hkind : t.kind = .endOfInput := by simpa [Token.isEnd] using hend
  simp [Lexeme.isMark, hkind] at h

/-- An operand is not the end of the input. -/
theorem Token.isEnd_of_operand? {t : Token} {e : Expr} (h : t.operand? = some e) :
    t.isEnd = false := by
  by_contra hend
  have hkind : t.kind = .endOfInput := by simpa [Token.isEnd] using hend
  simp [Token.operand?, hkind] at h

/-- A sign of arithmetic is not the end of the input. -/
theorem Token.isEnd_of_isArithmetic {t : Token} (h : Parse.isArithmetic t.toLexeme = true) :
    t.isEnd = false := by
  by_contra hend
  have hkind : t.kind = .endOfInput := by simpa [Token.isEnd] using hend
  simp [Parse.isArithmetic, hkind] at h

/-- A semicolon is no sign of arithmetic. -/
theorem Token.not_isArithmetic_of_isMark {t : Token} (h : t.isMark ";" = true) :
    Parse.isArithmetic t.toLexeme = false := by
  simp [Parse.isArithmetic, Lexeme.literal_of_isMark h]

/-- An identifier is not the end of the input. -/
theorem Token.isEnd_of_kind {t : Token} (h : t.kind = .identifier) : t.isEnd = false := by
  simp [Token.isEnd, h]

/-- An expression does not begin with the end of the input. -/
theorem Grammar.Expression.isEnd_head {t : Token} {us : List Token} {e : Expr}
    (h : Grammar.Expression (t :: us) e) : t.isEnd = false := by
  cases h with
  | operand he => exact Token.isEnd_of_operand? he
  | binary ha _ _ => exact Token.isEnd_of_operand? ha

/-- A comparison does not begin with the end of the input. -/
theorem Grammar.Comparison.isEnd_head {t : Token} {us : List Token} {e : Expr}
    (h : Grammar.Comparison (t :: us) e) : t.isEnd = false := by
  cases h with
  | mk ha _ _ => exact Token.isEnd_of_operand? ha

/-- An expression ends with an operand. -/
theorem Grammar.Expression.operand?_getLastD {ts : List Token} {e : Expr}
    (h : Grammar.Expression ts e) (t : Token) : ∃ last, (ts.getLastD t).operand? = some last := by
  cases h with
  | operand he => exact ⟨e, he⟩
  | binary _ _ hb => exact ⟨_, hb⟩

namespace Parse

variable {f g : Feed}

/-! ## Expressions -/

/-- Reading an operand yields exactly what the current token is, and does not move. -/
theorem yields_operand {e : Expr} :
    operand.Yields f e g ↔ f.current.operand? = some e ∧ f = g := by
  unfold operand Token.operand?
  rw [yields_current_bind]
  cases f.current.kind <;> simp

/-- Reading an expression yields exactly if one is derived from the current token on, with no sign
of arithmetic behind a single operand. -/
theorem yields_expression_iff (hf : f.Live) {e : Expr} :
    expression.Yields f e g ↔ ∃ us, f.Moves us g ∧ Grammar.Expression (f.current :: us) e ∧
      (us = [] → isArithmetic g.peek.toLexeme = false) := by
  unfold expression
  simp only [yields_bind (p := operand), yields_operand, yields_peek_bind]
  constructor
  · rintro ⟨left, g', ⟨hleft, rfl⟩, h⟩
    by_cases hsign : isArithmetic f.peek.toLexeme = true
    · simp only [hsign, if_true, yields_advance_bind, yields_current_bind,
        yields_bind (p := operand), yields_operand, yields_pure] at h
      obtain ⟨right, g', ⟨hright, rfl⟩, rfl, rfl⟩ := h
      have hmove := hf.moves_advance (Token.isEnd_of_isArithmetic hsign)
      have hlive := hf.of_moves hmove
      rw [Feed.current_advance hlive.free] at hright
      have hmove' := hlive.moves_advance (Token.isEnd_of_operand? hright)
      refine ⟨_, hmove.trans hmove', ?_, by simp⟩
      rw [Feed.current_advance hf.free]
      exact .binary hleft hsign hright
    · simp only [hsign, if_false, Bool.false_eq_true, yields_pure] at h
      obtain ⟨rfl, rfl⟩ := h
      exact ⟨[], Feed.Moves.refl f, .operand hleft, fun _ => by simpa using hsign⟩
  · rintro ⟨us, hmoves, hspells, hlook⟩
    cases hspells with
    | operand he =>
        obtain rfl := hmoves.eq_of_nil
        refine ⟨e, g, ⟨he, rfl⟩, ?_⟩
        simp [hlook rfl]
    | @binary a o b left right ha ho hb =>
        obtain ⟨hpeek, hcurrent, hlive, hmoves⟩ := hf.of_cons hmoves
        obtain ⟨-, hcurrent', -, hmoves⟩ := hlive.of_cons hmoves
        obtain rfl := hmoves.eq_of_nil
        refine ⟨left, f, ⟨ha, rfl⟩, ?_⟩
        rw [hpeek, if_pos ho]
        simp [yields_advance_bind, yields_current_bind, yields_bind (p := operand),
          yields_operand, hcurrent, hcurrent', hb]

/-- Reading a comparison yields exactly if one is derived from the current token on. -/
theorem yields_comparison_iff (hf : f.Live) {e : Expr} :
    comparison.Yields f e g ↔ ∃ us, f.Moves us g ∧ Grammar.Comparison (f.current :: us) e := by
  unfold comparison
  simp only [yields_bind (p := operand), yields_operand, yields_expect_bind, yields_advance_bind,
    yields_pure]
  constructor
  · rintro ⟨left, f', ⟨hleft, rfl⟩, hsign, right, g', ⟨hright, rfl⟩, rfl, rfl⟩
    have hmove := hf.moves_advance (Token.isEnd_of_isMark hsign)
    rw [Feed.current_advance hf.advance.free] at hright
    have hmove' := hf.advance.moves_advance (Token.isEnd_of_operand? hright)
    exact ⟨_, hmove.trans hmove', .mk hleft hsign hright⟩
  · rintro ⟨us, hmoves, hspells⟩
    cases hspells with
    | @mk a o b left right ha ho hb =>
        obtain ⟨hpeek, -, hlive, hmoves⟩ := hf.of_cons hmoves
        obtain ⟨-, hcurrent, -, hmoves⟩ := hlive.of_cons hmoves
        obtain rfl := hmoves.eq_of_nil
        refine ⟨left, f, ⟨ha, rfl⟩, by rw [hpeek]; exact ho, right, _, ⟨?_, rfl⟩, rfl, rfl⟩
        rw [hcurrent, hb]

/-! ## Statements -/

/-- What declarations and assignments have in common: a value with a semicolon behind it. -/
theorem yields_value_iff (hf : f.Live) {wanted : Expectation} {k : Expr → Stmt} {s : Stmt} :
    (advance >>= fun _ => expression >>= fun value => expect ";" wanted >>= fun _ =>
      pure (k value)).Yields f s g ↔
      ∃ ts semicolon value, f.Moves (ts ++ [semicolon]) g ∧ Grammar.Expression ts value ∧
        semicolon.isMark ";" = true ∧ s = k value := by
  simp only [yields_advance_bind, yields_bind (p := expression), yields_expect_bind, yields_pure]
  constructor
  · rintro ⟨value, g', hvalue, hsemicolon, rfl, rfl⟩
    obtain ⟨us, hmoves, hspells, -⟩ := (yields_expression_iff hf.advance).mp hvalue
    rw [Feed.current_advance hf.free] at hspells
    have hfirst := hf.moves_advance hspells.isEnd_head
    have hlast := (hf.advance.of_moves hmoves).moves_advance (Token.isEnd_of_isMark hsemicolon)
    exact ⟨f.peek :: us, g'.peek, value, hfirst.trans (hmoves.trans hlast), hspells, hsemicolon,
      rfl⟩
  · rintro ⟨ts, semicolon, value, hmoves, hspells, hsemicolon, rfl⟩
    obtain ⟨t, us, rfl⟩ : ∃ t us, ts = t :: us := by cases hspells <;> exact ⟨_, _, rfl⟩
    obtain ⟨-, hcurrent, hlive, hmoves⟩ := hf.of_cons hmoves
    obtain ⟨g', hvalue, hlast⟩ := hmoves.of_append
    obtain ⟨hpeek, -, -, hend⟩ := (hlive.of_moves hvalue).of_cons hlast
    obtain rfl := hend.eq_of_nil
    have hlook : isArithmetic g'.peek.toLexeme = false := by
      rw [hpeek]
      exact Token.not_isArithmetic_of_isMark hsemicolon
    refine ⟨value, g', ?_, by rw [hpeek]; exact hsemicolon, rfl, rfl⟩
    rw [yields_expression_iff hlive, hcurrent]
    exact ⟨us, hvalue, hspells, fun _ => hlook⟩

/-- Reading a declaration yields exactly if one is derived from the current token on. -/
theorem yields_declaration_iff (hf : f.Live) {s : Stmt} :
    declaration.Yields f s g ↔
      ∃ us, f.Moves us g ∧ Grammar.Declaration (f.current :: us) s := by
  unfold declaration
  simp only [yields_current_bind, yields_expectKind_bind, yields_expect_bind]
  rw [yields_value_iff hf.advance.advance]
  constructor
  · rintro ⟨hname, hequals, ts, semicolon, value, hmoves, hspells, hsemicolon, rfl⟩
    have hmove := hf.moves_advance (Token.isEnd_of_kind hname)
    have hmove' := hf.advance.moves_advance (Token.isEnd_of_isMark hequals)
    refine ⟨_, hmove.trans (hmove'.trans hmoves), ?_⟩
    rw [Feed.current_advance hf.free]
    exact .mk hname hequals hspells hsemicolon
  · rintro ⟨us, hmoves, hspells⟩
    cases hspells with
    | @mk _ name equals semicolon ts value hname hequals hvalue hsemicolon =>
        obtain ⟨hpeek, hcurrent, hlive, hmoves⟩ := hf.of_cons hmoves
        obtain ⟨hpeek', -, -, hmoves⟩ := hlive.of_cons hmoves
        refine ⟨by rw [hpeek]; exact hname, by rw [hpeek']; exact hequals, ts, semicolon, value,
          hmoves, hvalue, hsemicolon, ?_⟩
        rw [hcurrent]

/-- Reading an assignment yields exactly if one is derived from the current token on. -/
theorem yields_assignment_iff (hf : f.Live) {s : Stmt} :
    assignment.Yields f s g ↔ ∃ us, f.Moves us g ∧ Grammar.Assignment (f.current :: us) s := by
  unfold assignment
  simp only [yields_current_bind, yields_expect_bind]
  rw [yields_value_iff hf.advance]
  constructor
  · rintro ⟨hequals, ts, semicolon, value, hmoves, hspells, hsemicolon, rfl⟩
    have hmove := hf.moves_advance (Token.isEnd_of_isMark hequals)
    exact ⟨_, hmove.trans hmoves, .mk hequals hspells hsemicolon⟩
  · rintro ⟨us, hmoves, hspells⟩
    cases hspells with
    | @mk _ equals semicolon ts value hequals hvalue hsemicolon =>
        obtain ⟨hpeek, -, -, hmoves⟩ := hf.of_cons hmoves
        exact ⟨by rw [hpeek]; exact hequals, ts, semicolon, value, hmoves, hvalue, hsemicolon, rfl⟩

/-- Reading a condition yields exactly if one is derived from the current token on. -/
theorem yields_condition_iff (hf : f.Live) {e : Expr} :
    condition.Yields f e g ↔ ∃ us, f.Moves us g ∧ Grammar.Condition (f.current :: us) e := by
  unfold condition
  simp only [yields_expect_bind, yields_advance_bind, yields_bind (p := comparison.orMove _),
    yields_orMove, yields_pure]
  constructor
  · rintro ⟨hopening, test, g', htest, hclosing, hsemicolon, rfl, rfl⟩
    have hmove := hf.moves_advance (Token.isEnd_of_isMark hopening)
    obtain ⟨us, hmoves, hspells⟩ := (yields_comparison_iff hf.advance.advance).mp htest
    rw [Feed.current_advance hf.advance.free] at hspells
    have hfirst := hf.advance.moves_advance hspells.isEnd_head
    have hlive := hf.advance.advance.of_moves hmoves
    have hmove' := hlive.moves_advance (Token.isEnd_of_isMark hclosing)
    have hlast := hlive.advance.moves_advance (Token.isEnd_of_isMark hsemicolon)
    refine ⟨_, hmove.trans (hfirst.trans (hmoves.trans (hmove'.trans hlast))), ?_⟩
    exact .mk hopening hspells hclosing hsemicolon
  · rintro ⟨us, hmoves, hspells⟩
    cases hspells with
    | @mk _ opening closing semicolon ts _ hopening htest hclosing hsemicolon =>
        obtain ⟨t, us, rfl⟩ : ∃ t us, ts = t :: us := by cases htest; exact ⟨_, _, rfl⟩
        obtain ⟨hpeek, -, hlive, hmoves⟩ := hf.of_cons hmoves
        obtain ⟨-, hcurrent, hlive, hmoves⟩ := hlive.of_cons hmoves
        obtain ⟨g', hvalue, hmoves⟩ := hmoves.of_append
        obtain ⟨hpeek', -, hlive', hmoves⟩ := (hlive.of_moves hvalue).of_cons hmoves
        obtain ⟨hpeek'', -, -, hmoves⟩ := hlive'.of_cons hmoves
        obtain rfl := hmoves.eq_of_nil
        refine ⟨by rw [hpeek]; exact hopening, e, g', ?_, by rw [hpeek']; exact hclosing,
          by rw [hpeek'']; exact hsemicolon, rfl, rfl⟩
        rw [yields_comparison_iff hlive, hcurrent]
        exact ⟨us, hvalue, htest⟩

end Parse

end DoWhile
